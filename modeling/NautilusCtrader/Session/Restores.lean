import NautilusCtrader.Session.Losses

/-!
# The restores of a session

A session that is ready has run every restore that was registered when it took them, in the bring-up it
is in: each was run with success or is among the failed, which are run again, and what a retry of an
earlier bring-up comes to changes nothing (`restores_served`). It takes requests only on a connection
that is up and on which the venue accepted the account and has not ended it (`requests_served`).
-/

namespace NautilusCtrader

open Common

namespace BringUp

variable {κ φ : Type} [DecidableEq κ]

/-! ## What is kept -/

/-- `t` was told since the bring-up took its restores. -/
def TakenSince (told : List (Told κ φ)) (generation : ℕ) (t : Told κ φ) : Prop :=
  ∃ before since, told = before ++ .restoring generation :: since ∧ t ∈ since

/-- Each restore is among `left`, was run with success, is among the failed, or came later. -/
def Covered (told : List (Told κ φ)) (s : Session κ φ) (left : List (κ × φ)) : Prop :=
  ∀ key factory, s.restores.get? key = some factory →
    key ∈ s.failedRestores ∨ .ran s.bringUpGeneration key factory true ∈ told ∨
      TakenSince told s.bringUpGeneration (.registered key factory) ∨ (key, factory) ∈ left

/-- What a phase keeps. -/
def Phase.Keeps (told : List (Told κ φ)) (s : Session κ φ) : Phase κ φ → Prop
  | .authenticating _ => s.lost = false → s.connected = true
  | .restoring key factory rest =>
    (s.lost = false → s.connected = true) ∧ .authenticated s.bringUpGeneration ∈ told ∧
      .restoring s.bringUpGeneration ∈ told ∧ Covered told s ((key, factory) :: rest)
  | .waiting | .holding => .restoring s.bringUpGeneration ∈ told ∧ Covered told s []
  | _ => True

/-- What holds between two steps, of a session and what it told. -/
structure Kept (told : List (Told κ φ)) (s : Session κ φ) : Prop where
  ready : s.ready = decide (s.state = .ready)
  live : s.state = .restoring ∨ s.state = .ready →
    s.connected = true ∧ .authenticated s.bringUpGeneration ∈ told
  lost : ∀ generation cause, .lost generation cause ∈ told → generation ≤ s.bringUpGeneration ∧
    (generation = s.bringUpGeneration → s.lost = true ∧
      (cause ≠ .reauthentication → s.state ≠ .restoring ∧ s.state ≠ .ready))
  failed : ∀ key ∈ s.failedRestores,
    (∃ factory, .ran s.bringUpGeneration key factory false ∈ told) ∨
      .marked s.bringUpGeneration key ∈ told
  up : s.state = .ready → ∃ phase attempt, s.supervisor = some ⟨phase, attempt⟩ ∧
    (phase = .waiting ∨ phase = .holding)
  phase : ∀ phase attempt, s.supervisor = some ⟨phase, attempt⟩ → phase.Keeps told s
  retry : ∀ r, s.retry = some r → r.generation ≤ s.bringUpGeneration ∧
    (r.generation = s.bringUpGeneration → .restoring s.bringUpGeneration ∈ told ∧
      ∀ factory, s.restores.get? r.key = some factory → factory = r.factory ∨
        TakenSince told s.bringUpGeneration (.registered r.key factory))

section Steps

variable {told more : List (Told κ φ)} {s : Session κ φ} {attempt : ℕ}

omit [DecidableEq κ] in
/-- What was taken since a bring-up began stays so. -/
theorem TakenSince.append {generation : ℕ} {t : Told κ φ} (h : TakenSince told generation t)
    (more : List (Told κ φ)) : TakenSince (told ++ more) generation t := by
  obtain ⟨before, since, rfl, ht⟩ := h
  exact ⟨before, since ++ more, by rw [List.append_assoc]; rfl, List.mem_append_left _ ht⟩

omit [DecidableEq κ] in
/-- What is told after the restores were taken. -/
theorem takenSince_last {generation : ℕ} {t : Told κ φ} (h : .restoring generation ∈ told) :
    TakenSince (told ++ [t]) generation t := by
  obtain ⟨before, since, rfl⟩ := List.append_of_mem h
  exact ⟨before, since ++ [t], by rw [List.append_assoc]; rfl, List.mem_append_right _ List.mem_cons_self⟩

/-- Restores that are covered stay so. -/
theorem Covered.append {left : List (κ × φ)} (h : Covered told s left) (more : List (Told κ φ)) :
    Covered (told ++ more) s left := by
  intro key factory hget
  rcases h key factory hget with hfailed | hran | hsince | hleft
  · exact .inl hfailed
  · exact .inr (.inl (List.mem_append_left _ hran))
  · exact .inr (.inr (.inl (hsince.append more)))
  · exact .inr (.inr (.inr hleft))

/-- A phase keeps what it keeps when more is told. -/
theorem keeps_append {phase : Phase κ φ} (h : phase.Keeps told s) (more : List (Told κ φ)) :
    phase.Keeps (told ++ more) s := by
  cases phase with
  | authenticating stage => exact h
  | restoring key factory rest =>
    exact ⟨h.1, List.mem_append_left _ h.2.1, List.mem_append_left _ h.2.2.1, h.2.2.2.append more⟩
  | waiting | holding => exact ⟨List.mem_append_left _ h.1, h.2.append more⟩
  | _ => trivial

/-- What is told besides a loss changes nothing that is kept. -/
theorem Kept.append (h : Kept told s) (hmore : ∀ generation cause, .lost generation cause ∉ more) :
    Kept (told ++ more) s where
  ready := h.ready
  live hstate := ⟨(h.live hstate).1, List.mem_append_left _ (h.live hstate).2⟩
  lost generation cause hmem := by
    rcases List.mem_append.mp hmem with hmem | hmem
    · exact h.lost generation cause hmem
    · exact absurd hmem (hmore generation cause)
  failed key hkey := by
    rcases h.failed key hkey with ⟨factory, hran⟩ | hmarked
    · exact .inl ⟨factory, List.mem_append_left _ hran⟩
    · exact .inr (List.mem_append_left _ hmarked)
  up := h.up
  phase phase attempt hsome := keeps_append (h.phase phase attempt hsome) more
  retry r hretry := by
    obtain ⟨hle, hcurrent⟩ := h.retry r hretry
    refine ⟨hle, fun heq => ?_⟩
    obtain ⟨hrestoring, hfactory⟩ := hcurrent heq
    exact ⟨List.mem_append_left _ hrestoring, fun factory hget => (hfactory factory hget).imp_right
      (TakenSince.append · more)⟩

/-- A session whose supervisor comes to an await. -/
theorem Kept.awaits (h : Kept told s) {phase : Phase κ φ} (hphase : phase.Keeps told s)
    (hup : s.state = .ready → phase = .waiting ∨ phase = .holding) (attempt : ℕ) :
    Kept told (s.awaits phase attempt) where
  ready := h.ready
  live := h.live
  lost := h.lost
  failed := h.failed
  up hstate := ⟨phase, attempt, rfl, hup hstate⟩
  phase found n hsome := by
    cases hsome
    cases phase <;> exact hphase
  retry := h.retry

/-- A session that waits for nothing of a session that is up. -/
theorem Kept.notReady (h : Kept told s) {phase : Phase κ φ} (hsome : s.supervisor = some ⟨phase, attempt⟩)
    (hwaiting : phase ≠ .waiting) (hholding : phase ≠ .holding) : s.state ≠ .ready := by
  intro hstate
  obtain ⟨found, n, hfound, hphase⟩ := h.up hstate
  rw [hsome] at hfound
  cases hfound
  exact hphase.elim hwaiting hholding

/-- The connection is torn down. -/
theorem Kept.teardown (h : Kept told s) (up : Bool) (attempt : ℕ) :
    Kept told (s.teardownConnection up attempt) where
  ready := rfl
  live hstate := by rcases hstate with hstate | hstate <;> cases hstate
  lost generation cause hmem := by
    obtain ⟨hle, hcurrent⟩ := h.lost generation cause hmem
    exact ⟨hle, fun heq => ⟨(hcurrent heq).1, fun _ => ⟨fun hnot => (by cases hnot), fun hnot => by cases hnot⟩⟩⟩
  failed := h.failed
  up hstate := by cases hstate
  phase found n hsome := by
    cases hsome
    trivial
  retry := h.retry

/-- A bring-up fails. -/
theorem Kept.fail (h : Kept told s) (attempt : ℕ) :
    Kept (told ++ (s.failBringUp attempt).2) (s.failBringUp attempt).1 := by
  refine (h.teardown false attempt).append fun generation cause hmem => ?_
  unfold Session.failBringUp at hmem
  dsimp only at hmem
  split at hmem
  · cases List.mem_singleton.mp hmem
  · cases hmem

/-- A bring-up begins, with no restore of it failed. -/
theorem Kept.begins (h : Kept told s) (attempt : ℕ) :
    Kept (told ++ (s.beginBringUp attempt).2) (s.beginBringUp attempt).1 where
  ready := rfl
  live hstate := by rcases hstate with hstate | hstate <;> cases hstate
  lost generation cause hmem := by
    rcases List.mem_append.mp hmem with hmem | hmem
    · have hle : generation ≤ s.bringUpGeneration := (h.lost generation cause hmem).1
      refine ⟨Nat.le_succ_of_le hle, fun heq => ?_⟩
      have hsucc : generation = s.bringUpGeneration + 1 := heq
      omega
    · cases List.mem_singleton.mp hmem
  failed key hkey := absurd hkey (Finset.notMem_empty key)
  up hstate := by cases hstate
  phase found n hsome := by
    cases hsome
    trivial
  retry r hretry := by
    have hle : r.generation ≤ s.bringUpGeneration := (h.retry r hretry).1
    refine ⟨Nat.le_succ_of_le hle, fun heq => ?_⟩
    have hsucc : r.generation = s.bringUpGeneration + 1 := heq
    omega

/-- The bring-up goes on to its next restore, or is ready. -/
theorem Kept.restoreNext (h : Kept told s) (hlive : s.lost = false → s.connected = true)
    (hauthenticated : .authenticated s.bringUpGeneration ∈ told)
    (hrestoring : .restoring s.bringUpGeneration ∈ told) {rest : List (κ × φ)}
    (hcovered : Covered told s rest) (hstate : s.state ≠ .ready) :
    Kept (told ++ (s.restoreNext attempt rest).2) (s.restoreNext attempt rest).1 := by
  cases rest with
  | nil =>
    rw [Session.restoreNext]
    split
    · exact h.fail attempt
    · rename_i hnot
      have hlost : s.lost = false := Bool.eq_false_iff.mpr hnot
      rw [List.append_nil]
      exact {
        ready := rfl
        live := fun _ => ⟨hlive hlost, hauthenticated⟩
        lost := fun generation cause hmem => by
          obtain ⟨hle, hcurrent⟩ := h.lost generation cause hmem
          refine ⟨hle, fun heq => absurd (hcurrent heq).1 ?_⟩
          rw [hlost]
          exact Bool.false_ne_true
        failed := h.failed
        up := fun _ => ⟨_, _, rfl, .inl rfl⟩
        phase := fun found n hsome => by
          cases hsome
          exact ⟨hrestoring, hcovered⟩
        retry := h.retry }
  | cons entry rest =>
    have hphase : (Phase.restoring entry.1 entry.2 rest).Keeps told s :=
      ⟨hlive, hauthenticated, hrestoring, hcovered⟩
    show Kept (told ++ []) _
    rw [List.append_nil]
    exact h.awaits hphase (fun hready => absurd hready hstate) attempt

/-- The account is authenticated, and the restores are taken. -/
theorem Kept.authenticated (h : Kept told s) (hlive : s.lost = false → s.connected = true)
    (hstate : s.state ≠ .ready) :
    Kept (told ++ (s.authenticated attempt).2) (s.authenticated attempt).1 := by
  unfold Session.authenticated
  split
  · dsimp only
    rw [List.append_cons]
    -- the loss came while the account was authenticated: the bring-up fails
    refine Kept.fail (h.append fun generation cause hmem => ?_) attempt
    cases List.mem_singleton.mp hmem
  · rename_i hnot
    have hlost : s.lost = false := Bool.eq_false_iff.mpr hnot
    dsimp only
    rw [List.append_cons, List.append_cons]
    have hmore : ∀ generation cause, .lost generation cause ∉
        [(.authenticated s.bringUpGeneration : Told κ φ), .restoring s.bringUpGeneration] := by
      intro generation cause hmem
      rcases List.mem_cons.mp hmem with hmem | hmem
      · cases hmem
      · cases List.mem_singleton.mp hmem
    have hauthenticated : .authenticated s.bringUpGeneration ∈
        told ++ [.authenticated s.bringUpGeneration] ++ [(.restoring s.bringUpGeneration : Told κ φ)] :=
      List.mem_append_left _ (List.mem_append_right _ List.mem_cons_self)
    have htold := h.append hmore
    rw [List.append_cons] at htold
    -- what is registered now is what the bring-up has to run
    have htaken : Kept (told ++ [.authenticated s.bringUpGeneration] ++ [.restoring s.bringUpGeneration])
        { s with state := .restoring } := {
      ready := by
        have hready := h.ready
        rw [decide_eq_false hstate] at hready
        exact hready
      live := fun _ => ⟨hlive hlost, hauthenticated⟩
      lost := fun generation cause hmem => by
        obtain ⟨hle, hcurrent⟩ := htold.lost generation cause hmem
        refine ⟨hle, fun heq => absurd (hcurrent heq).1 ?_⟩
        show ¬s.lost = true
        rw [hlost]
        exact Bool.false_ne_true
      failed := htold.failed
      up := fun hstate => by cases hstate
      phase := fun found n hsome => by
        have hphase := htold.phase found n hsome
        cases found <;> exact hphase
      retry := htold.retry }
    refine htaken.restoreNext (fun _ => hlive hlost) hauthenticated
      (List.mem_append_right _ List.mem_cons_self) ?_ fun hstate => by cases hstate
    exact fun key factory hget => .inr (.inr (.inr (Dict.get?_eq_some.mp hget)))

/-- An await of the authentication ends. -/
theorem Kept.authenticate (h : Kept told s) (hlive : s.lost = false → s.connected = true)
    (hstate : s.state ≠ .ready) (stage : Stage) (answer : Answer) :
    Kept (told ++ (s.authenticate stage attempt answer).2) (s.authenticate stage attempt answer).1 := by
  have hawaits (next : Stage) : Kept (told ++ []) (s.awaits (.authenticating next) attempt) := by
    rw [List.append_nil]
    have hphase : (Phase.authenticating next).Keeps told s := hlive
    exact h.awaits hphase (fun hready => absurd hready hstate) attempt
  have haccount (next : Stage) : Kept (told ++ []) (s.authenticateAccount next attempt) := by
    have hnext := hawaits next
    exact ⟨hnext.ready, hnext.live, hnext.lost, hnext.failed, hnext.up, hnext.phase, hnext.retry⟩
  have hfails := h.fail attempt
  cases answer with
  | returns due =>
    cases stage with
    | application =>
      unfold Session.authenticate
      dsimp only
      split
      · exact hawaits _
      · exact haccount _
    | refreshingBefore | refreshingFor => exact haccount _
    | account | accountAgain => exact h.authenticated hlive hstate
  | refused errorCode tokenChanged mayRefresh =>
    cases stage with
    | account =>
      unfold Session.authenticate
      dsimp only
      split
      · exact haccount _
      split
      · exact hfails
      · exact hawaits _
    | refreshingBefore => exact haccount _
    | application | refreshingFor | accountAgain => exact hfails
  | raises => exact hfails

/-- What a phase keeps, of a session that covers its restores otherwise. -/
theorem keeps_of_covered {after : Session κ φ} {phase : Phase κ φ} (h : phase.Keeps told s)
    (hlost : after.lost = s.lost) (hconnected : after.connected = s.connected)
    (hgeneration : after.bringUpGeneration = s.bringUpGeneration)
    (hcovered : .restoring s.bringUpGeneration ∈ told → ∀ left, Covered told s left → Covered told after left) :
    phase.Keeps told after := by
  cases phase with
  | authenticating stage =>
    unfold Phase.Keeps at h ⊢
    rw [hlost, hconnected]
    exact h
  | restoring key factory rest =>
    unfold Phase.Keeps at h ⊢
    rw [hlost, hconnected, hgeneration]
    exact ⟨h.1, h.2.1, h.2.2.1, hcovered h.2.2.1 _ h.2.2.2⟩
  | waiting | holding =>
    unfold Phase.Keeps at h ⊢
    rw [hgeneration]
    exact ⟨h.1, hcovered h.1 _ h.2⟩
  | _ => trivial

/-- A key joins the failed, for a run that failed or because it was marked. -/
theorem Kept.insertFailed (h : Kept told s) {key : κ}
    (hkey : (∃ factory, .ran s.bringUpGeneration key factory false ∈ told) ∨
      .marked s.bringUpGeneration key ∈ told) :
    Kept told { s with failedRestores := insert key s.failedRestores } where
  ready := h.ready
  live := h.live
  lost := h.lost
  failed found hfound := by
    rcases Finset.mem_insert.mp hfound with rfl | hfound
    · exact hkey
    · exact h.failed found hfound
  up := h.up
  phase phase attempt hsome := by
    refine keeps_of_covered (h.phase phase attempt hsome) rfl rfl rfl fun _ left hleft => ?_
    exact fun found factory hget => (hleft found factory hget).imp_left (Finset.mem_insert_of_mem ·)
  retry := h.retry

/-- A key leaves the failed, unless its factory still has to be run. -/
theorem Kept.eraseFailed (h : Kept told s) {key : κ}
    (hkey : ∀ factory, s.restores.get? key = some factory →
      .ran s.bringUpGeneration key factory true ∈ told ∨
        TakenSince told s.bringUpGeneration (.registered key factory)) :
    Kept told { s with failedRestores := s.failedRestores.erase key } where
  ready := h.ready
  live := h.live
  lost := h.lost
  failed found hfound := h.failed found (Finset.mem_of_mem_erase hfound)
  up := h.up
  phase phase attempt hsome := by
    refine keeps_of_covered (h.phase phase attempt hsome) rfl rfl rfl fun _ left hleft => ?_
    intro found factory hget
    by_cases heq : found = key
    · subst heq
      rcases hkey factory hget with hran | hsince
      · exact .inr (.inl hran)
      · exact .inr (.inr (.inl hsince))
    · exact (hleft found factory hget).imp_left fun hfailed => Finset.mem_erase.mpr ⟨heq, hfailed⟩
  retry := h.retry

/-- A restore of the bring-up ends. -/
theorem Kept.restored (h : Kept told s) {key : κ} {factory : φ} {rest : List (κ × φ)}
    (hphase : (Phase.restoring key factory rest).Keeps told s) (hstate : s.state ≠ .ready)
    (outcome : Outcome) :
    Kept (told ++ (s.restored attempt key factory rest outcome).2)
      (s.restored attempt key factory rest outcome).1 := by
  obtain ⟨hlive, hauthenticated, hrestoring, hcovered⟩ := hphase
  have hran (ok : Bool) : ∀ generation cause,
      .lost generation cause ∉ [Told.ran s.bringUpGeneration key factory ok] := by
    intro generation cause hmem
    cases List.mem_singleton.mp hmem
  -- a failure of the connection ends the bring-up
  have hfails : Kept (told ++ .ran s.bringUpGeneration key factory false :: (s.failBringUp attempt).2)
      (s.failBringUp attempt).1 := by
    rw [List.append_cons]
    exact (h.append (hran false)).fail attempt
  cases outcome with
  | done =>
    unfold Session.restored
    dsimp only
    rw [List.append_cons]
    refine (h.append (hran true)).restoreNext hlive (List.mem_append_left _ hauthenticated)
      (List.mem_append_left _ hrestoring) ?_ hstate
    intro found other hget
    -- the restore that ran is covered by its record, the others as before
    rcases hcovered found other hget with hfailed | htold | hsince | hleft
    · exact .inl hfailed
    · exact .inr (.inl (List.mem_append_left _ htold))
    · exact .inr (.inr (.inl (hsince.append _)))
    · rcases List.mem_cons.mp hleft with heq | hleft
      · cases heq
        exact .inr (.inl (List.mem_append_right _ List.mem_cons_self))
      · exact .inr (.inr (.inr hleft))
  | connectionError => exact hfails
  | failed =>
    unfold Session.restored
    dsimp only
    split
    · exact hfails
    · dsimp only
      rw [List.append_cons]
      -- a restore that fails goes among the failed, and the next one runs
      have hkept := (h.append (hran false)).insertFailed
        (.inl ⟨factory, List.mem_append_right _ List.mem_cons_self⟩)
      refine hkept.restoreNext hlive (List.mem_append_left _ hauthenticated)
        (List.mem_append_left _ hrestoring) ?_ hstate
      intro found other hget
      rcases hcovered.append _ found other hget with hfailed | hran | hsince | hleft
      · exact .inl (Finset.mem_insert_of_mem hfailed)
      · exact .inr (.inl hran)
      · exact .inr (.inr (.inl hsince))
      · rcases List.mem_cons.mp hleft with heq | hleft
        · cases heq
          exact .inl (Finset.mem_insert_self _ _)
        · exact .inr (.inr (.inr hleft))

/-- The connection is closed. -/
theorem Kept.closed (h : Kept told s) (hstate : s.state ≠ .ready) (up stable : Bool) :
    Kept (told ++ (s.closed up attempt stable).2) (s.closed up attempt stable).1 := by
  unfold Session.closed
  dsimp only
  generalize hafter : (if up then { s with reauthRequested := false } else s) = after
  obtain ⟨hkept, hstate'⟩ : Kept told after ∧ after.state ≠ .ready := by
    subst hafter
    cases up with
    | true => exact ⟨⟨h.ready, h.live, h.lost, h.failed, h.up, h.phase, h.retry⟩, hstate⟩
    | false => exact ⟨h, hstate⟩
  generalize (if !up then _ else _ : Supervision.Round) = round
  cases Supervision.supervise attempt round with
  | none =>
    dsimp only
    rw [List.append_nil]
    exact ⟨hkept.ready, hkept.live, hkept.lost, hkept.failed, fun hready => absurd hready hstate',
      fun phase n hsome => (by cases hsome), hkept.retry⟩
  | some n =>
    dsimp only
    split
    · exact hkept.begins n
    · rw [List.append_nil]
      have hphase : (Phase.backingOff : Phase κ φ).Keeps told after := trivial
      exact hkept.awaits hphase (fun hready => absurd hready hstate') n

/-- The session is lost: it takes requests no more, unless it is to authenticate again. -/
theorem Kept.lose (h : Kept told s) {after : Session κ φ} {cause : Cause}
    (hsupervisor : after.supervisor = s.supervisor) (hgeneration : after.bringUpGeneration = s.bringUpGeneration)
    (hrestores : after.restores = s.restores) (hfailed : after.failedRestores = s.failedRestores)
    (hretry : after.retry = s.retry) (hlost : after.lost = true)
    (hstate : (after.state = .connecting ∧ after.ready = false) ∨
      (after.state = s.state ∧ after.ready = s.ready ∧ after.connected = s.connected ∧ s.lost = false ∧
        cause = .reauthentication)) :
    Kept (told ++ if s.lost then [] else [.lost s.bringUpGeneration cause]) after where
  ready := by
    rcases hstate with ⟨hconnecting, hready⟩ | ⟨hsame, hready, -⟩
    · rw [hconnecting, hready]
      rfl
    · rw [hsame, hready]
      exact h.ready
  live hlive := by
    rcases hstate with ⟨hconnecting, -⟩ | ⟨hsame, -, hconnected, -⟩
    · rw [hconnecting] at hlive
      rcases hlive with hlive | hlive <;> cases hlive
    · rw [hsame] at hlive
      rw [hconnected, hgeneration]
      exact ⟨(h.live hlive).1, List.mem_append_left _ (h.live hlive).2⟩
  lost generation found hmem := by
    rw [hgeneration]
    -- a session set back to connecting is neither restoring nor ready
    have hconnecting (hnot : after.state = .connecting) :
        found ≠ .reauthentication → after.state ≠ .restoring ∧ after.state ≠ .ready := by
      intro _
      rw [hnot]
      exact ⟨fun hnot => (by cases hnot), fun hnot => by cases hnot⟩
    rcases List.mem_append.mp hmem with hmem | hmem
    · obtain ⟨hle, hcurrent⟩ := h.lost generation found hmem
      refine ⟨hle, fun heq => ⟨hlost, ?_⟩⟩
      rcases hstate with ⟨hstate, -⟩ | ⟨-, -, -, hnot, -⟩
      · exact hconnecting hstate
      · rw [(hcurrent heq).1] at hnot
        cases hnot
    · split at hmem
      · cases hmem
      · cases List.mem_singleton.mp hmem
        refine ⟨Nat.le_refl _, fun _ => ⟨hlost, ?_⟩⟩
        rcases hstate with ⟨hstate, -⟩ | ⟨-, -, -, -, hcause⟩
        · exact hconnecting hstate
        · exact fun hnot => absurd hcause hnot
  failed key hkey := by
    rw [hfailed] at hkey
    rw [hgeneration]
    rcases h.failed key hkey with ⟨factory, hran⟩ | hmarked
    · exact .inl ⟨factory, List.mem_append_left _ hran⟩
    · exact .inr (List.mem_append_left _ hmarked)
  up hready := by
    rcases hstate with ⟨hconnecting, -⟩ | ⟨hsame, -⟩
    · rw [hconnecting] at hready
      cases hready
    · rw [hsupervisor]
      exact h.up (hsame ▸ hready)
  phase phase attempt hsome := by
    rw [hsupervisor] at hsome
    have hphase := keeps_append (h.phase phase attempt hsome)
      (if s.lost then [] else [.lost s.bringUpGeneration cause])
    have hcovered {left : List (κ × φ)} {told : List (Told κ φ)} (hleft : Covered told s left) :
        Covered told after left := by
      unfold Covered at hleft ⊢
      rw [hrestores, hfailed, hgeneration]
      exact hleft
    -- the phase stays; what it promises of a live connection is void once lost
    cases phase with
    | authenticating stage =>
      intro hnot
      rw [hlost] at hnot
      cases hnot
    | restoring key factory rest =>
      obtain ⟨-, hauthenticated, hrestoring, hleft⟩ := hphase
      refine ⟨fun hnot => ?_, by rw [hgeneration]; exact hauthenticated,
        by rw [hgeneration]; exact hrestoring, hcovered hleft⟩
      rw [hlost] at hnot
      cases hnot
    | waiting | holding => exact ⟨by rw [hgeneration]; exact hphase.1, hcovered hphase.2⟩
    | _ => trivial
  retry r hsome := by
    rw [hretry] at hsome
    rw [hgeneration, hrestores]
    obtain ⟨hle, hcurrent⟩ := h.retry r hsome
    refine ⟨hle, fun heq => ?_⟩
    obtain ⟨hrestoring, hfactory⟩ := hcurrent heq
    exact ⟨List.mem_append_left _ hrestoring, fun factory hget => (hfactory factory hget).imp_right
      (TakenSince.append · _)⟩

/-! ### Retries -/

/-- A retry is over. -/
theorem Kept.noRetry (h : Kept told s) : Kept told { s with retry := none } where
  ready := h.ready
  live := h.live
  lost := h.lost
  failed := h.failed
  up := h.up
  phase phase attempt hsome := by
    have hphase := h.phase phase attempt hsome
    cases phase <;> exact hphase
  retry r hretry := by cases hretry

/-- A retry goes on to the next key. -/
theorem Kept.retryNext (keys : List κ) {s : Session κ φ} (h : Kept told s) :
    Kept told (s.retryNext keys) := by
  induction keys generalizing s with
  | nil => exact h.noRetry
  | cons key rest ih =>
    unfold Session.retryNext
    split
    · exact h.noRetry
    · rename_i hstate
      have hready : s.state = .ready := not_not.mp hstate
      split
      · rename_i hget
        refine ih (h.eraseFailed fun factory hfound => ?_)
        rw [hget] at hfound
        cases hfound
      · rename_i factory hget
        obtain ⟨phase, attempt, hsome, hphase⟩ := h.up hready
        have hkeeps := h.phase phase attempt hsome
        have hrestoring : .restoring s.bringUpGeneration ∈ told := by
          rcases hphase with rfl | rfl
          · exact hkeeps.1
          · exact hkeeps.1
        exact {
          ready := h.ready
          live := h.live
          lost := h.lost
          failed := h.failed
          up := h.up
          phase := fun found n hfound => by
            have hphase := h.phase found n hfound
            cases found <;> exact hphase
          retry := fun r hretry => by
            cases hretry
            refine ⟨Nat.le_refl _, fun _ => ⟨hrestoring, fun other hother => .inl ?_⟩⟩
            exact Option.some.inj (hother.symm.trans hget) }

/-- The factory of a retry ends. -/
theorem Kept.retried (h : Kept told s) {r : Retry κ φ} (hretry : s.retry = some r) (outcome : Outcome) :
    Kept (told ++ (s.retried r outcome).2) (s.retried r outcome).1 := by
  have hran (ok : Bool) : Kept (told ++ [.ran r.generation r.key r.factory ok]) s := by
    refine h.append fun generation cause hmem => ?_
    cases List.mem_singleton.mp hmem
  cases outcome with
  | done =>
    unfold Session.retried
    dsimp only
    split
    · exact (hran true).noRetry
    · rename_i hstale
      have hcurrent : r.generation = s.bringUpGeneration := by
        have hnot := of_decide_eq_false (Bool.eq_false_iff.mpr hstale)
        exact not_not.mp fun hne => hnot (.inl hne)
      obtain ⟨-, hfactory⟩ := (h.retry r hretry).2 hcurrent
      refine Kept.retryNext r.rest ((hran true).eraseFailed fun factory hget => ?_)
      rcases hfactory factory hget with rfl | hsince
      · rw [← hcurrent]
        exact .inl (List.mem_append_right _ List.mem_cons_self)
      · exact .inr (hsince.append _)
  | connectionError => exact (hran false).noRetry
  | failed =>
    unfold Session.retried
    dsimp only
    split
    · exact (hran false).noRetry
    · exact Kept.retryNext r.rest (hran false)

end Steps

/-! ## Steps and runs -/

section Runs

variable {accountId : ℤ} {told : List (Told κ φ)} {s : Session κ φ}

/-- The supervisor goes on. -/
theorem kept_supervise (h : Kept told s) (input : Input κ φ) :
    Kept (told ++ (s.supervise input).2) (s.supervise input).1 := by
  have hstays : Kept (told ++ []) s := by
    rw [List.append_nil]
    exact h
  -- a phase each, from the first bring-up to the back-off
  unfold Session.supervise
  split
  · exact hstays
  · rename_i phase attempt hsome
    have hphase := h.phase _ _ hsome
    split
    · exact h.begins attempt
    · have hstate := h.notReady hsome (fun hnot => by cases hnot) (fun hnot => by cases hnot)
      rw [List.append_nil]
      exact {
        ready := h.ready.trans (decide_eq_false hstate)
        live := fun hlive => by rcases hlive with hlive | hlive <;> cases hlive
        lost := fun generation cause hmem => by
          obtain ⟨hle, hcurrent⟩ := h.lost generation cause hmem
          exact ⟨hle, fun heq => ⟨(hcurrent heq).1,
            fun _ => ⟨fun hnot => (by cases hnot), fun hnot => by cases hnot⟩⟩⟩
        failed := h.failed
        up := fun hready => by cases hready
        phase := fun found n hfound => by
          cases hfound
          exact fun _ => rfl
        retry := h.retry }
    · exact h.fail attempt
    · exact h.authenticate hphase (h.notReady hsome (fun hnot => by cases hnot) fun hnot => by cases hnot) _ _
    · exact h.restored hphase (h.notReady hsome (fun hnot => by cases hnot) fun hnot => by cases hnot) _
    · split
      · rename_i settled hlost
        have hloss : ∀ generation cause, .lost generation cause ∉ [(.lossTold : Told κ φ)] := by
          intro generation cause hmem
          cases List.mem_singleton.mp hmem
        -- the loss is told, and the supervisor holds for a refresh reply that is on its way
        cases settled with
        | true => exact (h.append hloss).teardown true attempt
        | false =>
          have hholding : (Phase.holding : Phase κ φ).Keeps (told ++ [.lossTold]) s := keeps_append hphase _
          exact (h.append hloss).awaits hholding (fun _ => .inr rfl) attempt
      · exact hstays
    · rw [List.append_nil]
      exact h.teardown true attempt
    · exact h.closed (h.notReady hsome (fun hnot => by cases hnot) fun hnot => by cases hnot) _ _
    · exact h.begins attempt
    · exact hstays

/-- A restore is registered, under a key that may have another. -/
theorem Kept.addRestore (h : Kept told s) (key : κ) (factory : φ) :
    Kept (told ++ [.registered key factory]) { s with restores := s.restores.set key factory } := by
  have htold : Kept (told ++ [.registered key factory]) s := by
    refine h.append fun generation cause hmem => ?_
    cases List.mem_singleton.mp hmem
  exact {
    ready := htold.ready
    live := htold.live
    lost := htold.lost
    failed := htold.failed
    up := htold.up
    phase := fun phase attempt hsome => by
      have hphase := h.phase phase attempt hsome
      have hcovered (hrestoring : .restoring s.bringUpGeneration ∈ told) {left : List (κ × φ)}
          (hleft : Covered told s left) : Covered (told ++ [.registered key factory])
            { s with restores := s.restores.set key factory } left := by
        intro found other hget
        rcases Dict.get?_set_eq_some.mp hget with ⟨rfl, rfl⟩ | ⟨-, hget⟩
        · exact .inr (.inr (.inl (takenSince_last hrestoring)))
        · exact hleft.append _ found other hget
      cases phase with
      | authenticating stage => exact hphase
      | restoring found other rest =>
        obtain ⟨hlive, hauthenticated, hrestoring, hleft⟩ := hphase
        exact ⟨hlive, List.mem_append_left _ hauthenticated, List.mem_append_left _ hrestoring,
          hcovered hrestoring hleft⟩
      | waiting | holding => exact ⟨List.mem_append_left _ hphase.1, hcovered hphase.1 hphase.2⟩
      | _ => trivial
    retry := fun r hretry => by
      obtain ⟨hle, hcurrent⟩ := h.retry r hretry
      refine ⟨hle, fun heq => ?_⟩
      obtain ⟨hrestoring, hfactory⟩ := hcurrent heq
      refine ⟨List.mem_append_left _ hrestoring, fun other hget => ?_⟩
      rcases Dict.get?_set_eq_some.mp hget with ⟨hkey, rfl⟩ | ⟨-, hget⟩
      · rw [← hkey]
        exact .inr (takenSince_last hrestoring)
      · exact (hfactory other hget).imp_right (TakenSince.append · _) }

/-- A restore is removed. -/
theorem Kept.removeRestore (h : Kept told s) (key : κ) :
    Kept told { s with
      restores := s.restores.erase key
      failedRestores := s.failedRestores.erase key } where
  ready := h.ready
  live := h.live
  lost := h.lost
  failed found hfound := h.failed found (Finset.mem_of_mem_erase hfound)
  up := h.up
  phase phase attempt hsome := by
    refine keeps_of_covered (h.phase phase attempt hsome) rfl rfl rfl fun _ left hleft => ?_
    intro found factory hget
    obtain ⟨hne, hget⟩ := Dict.get?_erase_eq_some.mp hget
    exact (hleft found factory hget).imp_left fun hfailed => Finset.mem_erase.mpr ⟨hne, hfailed⟩
  retry r hretry := by
    obtain ⟨hle, hcurrent⟩ := h.retry r hretry
    refine ⟨hle, fun heq => ⟨(hcurrent heq).1, fun factory hget => ?_⟩⟩
    exact (hcurrent heq).2 factory (Dict.get?_erase_eq_some.mp hget).2

/-- Every step keeps the restores. -/
theorem kept_step (h : Kept told s) (hlive : s.connected = true → s.stopping = false)
    (input : Input κ φ) :
    Kept (told ++ ((machine accountId).step s input).2) ((machine accountId).step s input).1 := by
  have hstays : Kept (told ++ (s, ([] : List (Told κ φ))).2) (s, ([] : List (Told κ φ))).1 := by
    show Kept (told ++ []) s
    rw [List.append_nil]
    exact h
  -- an input that tells nothing has no record to account for
  have hnone {after : Session κ φ} (hafter : Kept told after) :
      Kept (told ++ (after, ([] : List (Told κ φ))).2) (after, ([] : List (Told κ φ))).1 := by
    show Kept (told ++ []) after
    rw [List.append_nil]
    exact hafter
  cases input with
  | start =>
    show Kept (told ++ (if s.supervisor.isSome then (s, []) else _).2)
      (if s.supervisor.isSome then (s, []) else _).1
    split
    · exact hstays
    · rename_i hsupervisor
      refine hnone ⟨h.ready, h.live, h.lost, h.failed, fun hready => ?_, fun phase n hsome => ?_, h.retry⟩
      · obtain ⟨phase, attempt, hsome, -⟩ := h.up hready
        rw [hsome] at hsupervisor
        exact absurd rfl hsupervisor
      · cases hsome
        trivial
  | stop =>
    have hstopped : ∀ generation cause, .lost generation cause ∉ [(.stopped : Told κ φ)] := by
      intro generation cause hmem
      cases List.mem_singleton.mp hmem
    have htold := h.append hstopped
    exact {
      ready := rfl
      live := fun hlive => by rcases hlive with hlive | hlive <;> cases hlive
      lost := fun generation cause hmem => ⟨(htold.lost generation cause hmem).1, fun _ => ⟨rfl,
        fun _ => ⟨fun hnot => (by cases hnot), fun hnot => by cases hnot⟩⟩⟩
      failed := htold.failed
      up := fun hready => by cases hready
      phase := fun phase n hsome => by cases hsome
      retry := htold.retry }
  | disconnects =>
    show Kept (told ++ (if s.connected then s.onDisconnect else (s, [])).2)
      (if s.connected then s.onDisconnect else (s, [])).1
    split
    · rename_i hconnected
      rw [onDisconnect_live (hlive hconnected)]
      exact @Kept.lose _ _ _ told s h
        { s with connected := false, state := .connecting, ready := false, lost := true } _ rfl rfl rfl rfl
        rfl rfl (.inl ⟨rfl, rfl⟩)
    · exact hstays
  | event event =>
    show Kept (told ++ (if s.connected then s.onEvent accountId event else (s, [])).2)
      (if s.connected then s.onEvent accountId event else (s, [])).1
    split
    · unfold Session.onEvent
      split
      · exact @Kept.lose _ _ _ told s h
          { s with state := .connecting, ready := false, lost := true } _ rfl rfl rfl rfl rfl rfl
          (.inl ⟨rfl, rfl⟩)
      · exact hstays
    · exact hstays
  | reauthenticate =>
    show Kept (told ++ (if s.state = .ready ∧ s.lost = false then _ else (s, [])).2)
      (if s.state = .ready ∧ s.lost = false then _ else (s, [])).1
    split
    · rename_i hready
      exact @Kept.lose _ _ _ told s h { s with reauthRequested := true, lost := true } _ rfl rfl rfl rfl rfl
        rfl (.inr ⟨rfl, rfl, rfl, hready.2, rfl⟩)
    · exact hstays
  | addRestore key factory => exact h.addRestore key factory
  | removeRestore key => exact hnone (h.removeRestore key)
  | markRestoreFailed key =>
    show Kept (told ++ (if s.restores.contains key then _ else (s, [])).2)
      (if s.restores.contains key then _ else (s, [])).1
    split
    · have hmarked : ∀ generation cause,
          .lost generation cause ∉ [(.marked s.bringUpGeneration key : Told κ φ)] := by
        intro generation cause hmem
        cases List.mem_singleton.mp hmem
      exact (h.append hmarked).insertFailed (.inr (List.mem_append_right _ List.mem_cons_self))
    · exact hstays
  | retry order =>
    show Kept (told ++ (if s.retry.isNone ∧ order.Nodup ∧ order.toFinset = s.failedRestores then _
      else (s, [])).2) (if s.retry.isNone ∧ order.Nodup ∧ order.toFinset = s.failedRestores then _
      else (s, [])).1
    split
    · exact hnone (Kept.retryNext order h)
    · exact hstays
  | retried outcome =>
    show Kept (told ++ (s.retry.elim (s, []) (s.retried · outcome)).2)
      (s.retry.elim (s, []) (s.retried · outcome)).1
    cases hretry : s.retry with
    | none => exact hstays
    | some r => exact h.retried hretry outcome
  | retryCancelled => exact hnone h.noRetry
  | runs | connects ok | answers answer | restored outcome | wakes settled | held | closed stable | slept =>
    exact kept_supervise h _

/-- Every run keeps them. -/
theorem kept_run (inputs : List (Input κ φ)) :
    Kept ((machine accountId).told ({} : Session κ φ) inputs) ((machine accountId).after {} inputs) := by
  have hnew : Kept [] ({} : Session κ φ) := {
    ready := rfl
    live := fun hlive => by rcases hlive with hlive | hlive <;> cases hlive
    lost := fun generation cause hmem => by cases hmem
    failed := fun key hkey => absurd hkey (Finset.notMem_empty key)
    up := fun hready => by cases hready
    phase := fun phase n hsome => by cases hsome
    retry := fun r hretry => by cases hretry }
  have hrun := @Machine.told_invariant _ _ _ (machine accountId)
    (fun told (s : Session κ φ) => Kept told s ∧ ∃ m, Agrees s m) ?_ _ ⟨hnew, .none, agrees_new⟩ inputs
  · exact hrun.1
  · rintro told s input ⟨h, m, hagrees⟩
    obtain ⟨m', -, hagrees'⟩ := @follows_step _ _ _ accountId _ _ hagrees input
    exact ⟨kept_step h hagrees.live input, m', hagrees'⟩

/-! ## A bring-up that broke -/

/-- The input drops the connection, or ends the account's authentication on it. -/
def Session.Breaks (s : Session κ φ) (accountId : ℤ) : Input κ φ → Prop
  | .disconnects => s.connected = true
  | .event event => s.connected = true ∧ s.endsOurAuthentication accountId event = true
  | _ => False

/-- While it is in the bring-up `generation`, the session is lost and takes no requests. -/
structure Broken (generation : ℕ) (s : Session κ φ) : Prop where
  le : generation ≤ s.bringUpGeneration
  dead : s.bringUpGeneration = generation → s.lost = true ∧ s.acceptsRequests = false

section Broken

variable {generation attempt : ℕ} {s : Session κ φ}

omit [DecidableEq κ] in
/-- A step inside a bring-up: a session that is lost stays so, and goes into no state that takes
requests. -/
theorem Broken.within {after : Session κ φ} (h : Broken generation s)
    (hgeneration : after.bringUpGeneration = s.bringUpGeneration)
    (hlost : s.lost = true → after.lost = true)
    (hstate : s.lost = true → s.acceptsRequests = false → after.acceptsRequests = false) :
    Broken generation after where
  le := hgeneration ▸ h.le
  dead heq := by
    obtain ⟨hwas, hnot⟩ := h.dead (hgeneration ▸ heq)
    exact ⟨hlost hwas, hstate hwas hnot⟩

omit [DecidableEq κ] in
/-- A step that leaves the bring-up, the loss and the state. -/
theorem Broken.same {after : Session κ φ} (h : Broken generation s)
    (hgeneration : after.bringUpGeneration = s.bringUpGeneration) (hlost : after.lost = s.lost)
    (hstate : after.state = s.state) : Broken generation after := by
  refine h.within hgeneration (fun hwas => hlost ▸ hwas) fun _ hnot => ?_
  unfold Session.acceptsRequests at hnot ⊢
  rw [hstate]
  exact hnot

omit [DecidableEq κ] in
/-- A later bring-up begins. -/
theorem Broken.begins (h : Broken generation s) (attempt : ℕ) :
    Broken generation (s.beginBringUp attempt).1 where
  le := Nat.le_succ_of_le h.le
  dead heq := by
    have hle := h.le
    have hnext : s.bringUpGeneration + 1 = generation := heq
    omega

omit [DecidableEq κ] in
/-- The connection is torn down. -/
theorem Broken.teardown (h : Broken generation s) (up : Bool) (attempt : ℕ) :
    Broken generation (s.teardownConnection up attempt) :=
  h.within rfl id fun _ _ => rfl

omit [DecidableEq κ] in
/-- A bring-up that is lost does not become ready. -/
theorem Broken.restoreNext (h : Broken generation s) (attempt : ℕ) (rest : List (κ × φ)) :
    Broken generation (s.restoreNext attempt rest).1 := by
  cases rest with
  | nil =>
    rw [Session.restoreNext]
    split
    · exact h.teardown false attempt
    · rename_i hnot
      exact h.within rfl id fun hwas => absurd hwas hnot
  | cons entry rest => exact h.same rfl rfl rfl

omit [DecidableEq κ] in
/-- The authentication of a connection that broke is not acted on. -/
theorem Broken.authenticated (h : Broken generation s) (attempt : ℕ) :
    Broken generation (s.authenticated attempt).1 := by
  unfold Session.authenticated
  split
  · exact h.teardown false attempt
  · rename_i hnot
    have hrestoring : Broken generation { s with state := .restoring } :=
      h.within rfl id fun hwas => absurd hwas hnot
    exact hrestoring.restoreNext attempt _

omit [DecidableEq κ] in
/-- Nor is an answer to it. -/
theorem Broken.authenticate (h : Broken generation s) (stage : Stage) (attempt : ℕ) (answer : Answer) :
    Broken generation (s.authenticate stage attempt answer).1 := by
  have hawaits (next : Stage) : Broken generation (s.awaits (.authenticating next) attempt) :=
    h.same rfl rfl rfl
  have haccount (next : Stage) : Broken generation (s.authenticateAccount next attempt) :=
    h.same rfl rfl rfl
  have hfails : Broken generation (s.failBringUp attempt).1 := h.teardown false attempt
  cases answer with
  | returns due =>
    cases stage with
    | application =>
      unfold Session.authenticate
      dsimp only
      split
      · exact hawaits _
      · exact haccount _
    | refreshingBefore | refreshingFor => exact haccount _
    | account | accountAgain => exact h.authenticated attempt
  | refused errorCode tokenChanged mayRefresh =>
    cases stage with
    | account =>
      unfold Session.authenticate
      dsimp only
      split
      · exact haccount _
      split
      · exact hfails
      · exact hawaits _
    | refreshingBefore => exact haccount _
    | application | refreshingFor | accountAgain => exact hfails
  | raises => exact hfails

/-- Nor is a restore on it. -/
theorem Broken.restored (h : Broken generation s) (attempt : ℕ) (key : κ) (factory : φ)
    (rest : List (κ × φ)) (outcome : Outcome) :
    Broken generation (s.restored attempt key factory rest outcome).1 := by
  cases outcome with
  | done => exact h.restoreNext attempt rest
  | connectionError => exact h.teardown false attempt
  | failed =>
    unfold Session.restored
    dsimp only
    split
    · exact h.teardown false attempt
    · have hfailed : Broken generation { s with failedRestores := insert key s.failedRestores } :=
        h.same rfl rfl rfl
      exact hfailed.restoreNext attempt rest

omit [DecidableEq κ] in
/-- The connection is closed. -/
theorem Broken.closed (h : Broken generation s) (up : Bool) (attempt : ℕ) (stable : Bool) :
    Broken generation (s.closed up attempt stable).1 := by
  unfold Session.closed
  dsimp only
  generalize hafter : (if up then { s with reauthRequested := false } else s) = after
  have hbroken : Broken generation after := by
    subst hafter
    cases up
    · exact h
    · exact h.same rfl rfl rfl
  generalize (if !up then _ else _ : Supervision.Round) = round
  cases Supervision.supervise attempt round with
  | none => exact hbroken.same rfl rfl rfl
  | some n =>
    dsimp only
    split
    · exact hbroken.begins n
    · exact hbroken.same rfl rfl rfl

/-- A retry goes on with the next restore. -/
theorem Broken.retryNext (h : Broken generation s) (keys : List κ) :
    Broken generation (s.retryNext keys) := by
  induction keys generalizing s with
  | nil => exact h.same rfl rfl rfl
  | cons key rest ih =>
    unfold Session.retryNext
    split
    · exact h.same rfl rfl rfl
    split
    · exact ih (h.same rfl rfl rfl)
    · exact h.same rfl rfl rfl

/-- A restore that is retried returns. -/
theorem Broken.retried (h : Broken generation s) (r : Retry κ φ) (outcome : Outcome) :
    Broken generation (s.retried r outcome).1 := by
  have hgone : Broken generation { s with retry := none } := h.same rfl rfl rfl
  cases outcome with
  | done =>
    unfold Session.retried
    dsimp only
    split
    · exact hgone
    · have hran : Broken generation { s with failedRestores := s.failedRestores.erase r.key } :=
        h.same rfl rfl rfl
      exact hran.retryNext r.rest
  | connectionError => exact hgone
  | failed =>
    unfold Session.retried
    dsimp only
    split
    · exact hgone
    · exact h.retryNext r.rest

/-- The supervisor goes on. -/
theorem Broken.supervise (h : Broken generation s) (input : Input κ φ) :
    Broken generation (s.supervise input).1 := by
  unfold Session.supervise
  split
  · exact h
  · rename_i phase attempt hsome
    split
    · exact h.begins attempt
    · exact h.within rfl id fun _ _ => rfl
    · exact h.teardown false attempt
    · exact h.authenticate _ attempt _
    · exact h.restored attempt _ _ _ _
    · split
      · rename_i settled hlost
        cases settled with
        | true => exact h.teardown true attempt
        | false => exact h.same rfl rfl rfl
      · exact h
    · exact h.teardown true attempt
    · exact h.closed _ attempt _
    · exact h.begins attempt
    · exact h

omit [DecidableEq κ] in
/-- A session that is lost in a state that takes no requests is broken. -/
theorem Broken.lost {after : Session κ φ} (h : Broken generation s)
    (hgeneration : after.bringUpGeneration = s.bringUpGeneration) (hlost : after.lost = true)
    (hstate : after.acceptsRequests = false) : Broken generation after :=
  h.within hgeneration (fun _ => hlost) fun _ _ => hstate

/-- A bring-up that broke stays so. -/
theorem broken_step (h : Broken generation s) (hlive : s.connected = true → s.stopping = false)
    (input : Input κ φ) : Broken generation ((machine accountId).step s input).1 := by
  -- the bring-up ends or goes on; none of its inputs makes it live again
  cases input with
  | start =>
    show Broken generation (if s.supervisor.isSome then (s, []) else _).1
    split
    · exact h
    · exact h.same rfl rfl rfl
  | stop => exact h.lost rfl rfl rfl
  | disconnects =>
    show Broken generation (if s.connected then s.onDisconnect else (s, [])).1
    split
    · rename_i hconnected
      rw [onDisconnect_live (hlive hconnected)]
      exact h.lost rfl rfl rfl
    · exact h
  | event event =>
    show Broken generation (if s.connected then s.onEvent accountId event else (s, [])).1
    split
    · unfold Session.onEvent
      split
      · exact h.lost rfl rfl rfl
      · exact h
    · exact h
  | reauthenticate =>
    show Broken generation (if s.state = .ready ∧ s.lost = false then _ else (s, [])).1
    split
    · exact h.within rfl (fun _ => rfl) fun _ hnot => hnot
    · exact h
  | addRestore key factory => exact h.same rfl rfl rfl
  | removeRestore key => exact h.same rfl rfl rfl
  | markRestoreFailed key =>
    show Broken generation (if s.restores.contains key then _ else (s, [])).1
    split
    · exact h.same rfl rfl rfl
    · exact h
  | retry order =>
    show Broken generation
      (if s.retry.isNone ∧ order.Nodup ∧ order.toFinset = s.failedRestores then _ else (s, [])).1
    split
    · exact h.retryNext order
    · exact h
  | retried outcome =>
    show Broken generation (s.retry.elim (s, []) (s.retried · outcome)).1
    cases s.retry with
    | none => exact h
    | some r => exact h.retried r outcome
  | retryCancelled => exact h.same rfl rfl rfl
  | runs | connects ok | answers answer | restored outcome | wakes settled | held | closed stable | slept =>
    exact h.supervise _

/-- The input that breaks a bring-up. -/
theorem breaks_step (hlive : s.connected = true → s.stopping = false) {input : Input κ φ}
    (hbreaks : s.Breaks accountId input) :
    Broken s.bringUpGeneration ((machine accountId).step s input).1 := by
  cases input with
  | disconnects =>
    have hconnected : s.connected = true := hbreaks
    show Broken _ (if s.connected then s.onDisconnect else (s, [])).1
    rw [if_pos hconnected, onDisconnect_live (hlive hconnected)]
    exact ⟨le_rfl, fun _ => ⟨rfl, rfl⟩⟩
  | event event =>
    obtain ⟨hconnected, hends⟩ := hbreaks
    show Broken _ (if s.connected then s.onEvent accountId event else (s, [])).1
    unfold Session.onEvent
    rw [if_pos hconnected, hends, hlive hconnected]
    exact ⟨le_rfl, fun _ => ⟨rfl, rfl⟩⟩
  | _ => cases hbreaks

/-- A bring-up that broke stays broken. -/
theorem broken_run (inputs : List (Input κ φ)) (h : Broken generation s) {m : Mark} (hagrees : Agrees s m) :
    Broken generation ((machine accountId).after s inputs) := by
  induction inputs generalizing s m with
  | nil => exact h
  | cons input inputs ih =>
    obtain ⟨m', -, hnext⟩ := @follows_step _ _ _ accountId _ _ hagrees input
    exact ih (broken_step h hagrees.live input) hnext

end Broken

/-- **No restore is forgotten.** While a session is ready, every restore that is registered was run with
success in this bring-up, or is among the failed, or was registered since the bring-up took those it ran.
At any time, a key is among the failed for a run that failed in this bring-up, or because it was marked
in it. -/
theorem restores_served (inputs : List (Input κ φ)) :
    let s := (machine accountId).after {} inputs
    let told := (machine accountId).told {} inputs
    (s.state = .ready → ∀ key factory, s.restores.get? key = some factory →
        key ∈ s.failedRestores ∨ .ran s.bringUpGeneration key factory true ∈ told ∨
          TakenSince told s.bringUpGeneration (.registered key factory)) ∧
      ∀ key ∈ s.failedRestores, (∃ factory, .ran s.bringUpGeneration key factory false ∈ told) ∨
        .marked s.bringUpGeneration key ∈ told := by
  intro s told
  have h : Kept told s := kept_run inputs
  refine ⟨fun hready key factory hget => ?_, h.failed⟩
  obtain ⟨phase, attempt, hsome, hphase⟩ := h.up hready
  have hkeeps := h.phase phase attempt hsome
  have hcovered : Covered told s [] := by
    rcases hphase with rfl | rfl
    · exact hkeeps.2
    · exact hkeeps.2
  rcases hcovered key factory hget with hfailed | hran | hsince | hleft
  · exact .inl hfailed
  · exact .inr (.inl hran)
  · exact .inr (.inr hsince)
  · cases hleft

/-- A retry that returns in the next bring-up leaves the restore that failed there. -/
example :
    ((machine 7).after ({} : Session String ℕ) [.addRestore "spots" 1, .start, .runs, .connects true,
      .answers (.returns false), .answers (.returns false), .restored .failed, .retry ["spots"], .disconnects,
      .wakes true, .closed true, .connects true, .answers (.returns false), .answers (.returns false),
      .restored .failed, .retried .done]).failedRestores = {"spots"} := by decide

/-- **Requests go out on an authenticated connection alone.** Whenever a session takes requests, its
connection is up, the venue accepted the account's authentication in this bring-up, and no input of the
bring-up dropped the connection or ended the authentication; those who wait for the session go on just
while it is ready. -/
theorem requests_served (inputs : List (Input κ φ)) :
    let s := (machine accountId).after {} inputs
    let told := (machine accountId).told {} inputs
    (s.acceptsRequests = true → s.connected = true ∧ .authenticated s.bringUpGeneration ∈ told ∧
        .lost s.bringUpGeneration .dropped ∉ told ∧
        .lost s.bringUpGeneration .authenticationEnded ∉ told ∧
        ∀ earlier input later, inputs = earlier ++ input :: later →
          ((machine accountId).after {} earlier).bringUpGeneration = s.bringUpGeneration →
          ¬((machine accountId).after ({} : Session κ φ) earlier).Breaks accountId input) ∧
      (s.ready = true ↔ s.state = .ready) := by
  intro s told
  have h : Kept told s := kept_run inputs
  refine ⟨fun haccepts => ?_, ?_⟩
  · have hstate : s.state = .restoring ∨ s.state = .ready := (of_decide_eq_true haccepts).symm
    have hnot {cause : Cause} (hcause : cause ≠ .reauthentication) :
        .lost s.bringUpGeneration cause ∉ told := by
      intro hmem
      obtain ⟨hrestoring, hready⟩ := ((h.lost _ cause hmem).2 rfl).2 hcause
      exact hstate.elim hrestoring hready
    refine ⟨(h.live hstate).1, (h.live hstate).2, hnot fun hnot => (by cases hnot),
      hnot fun hnot => (by cases hnot), ?_⟩
    rintro earlier input later rfl hgeneration hbreaks
    obtain ⟨m, -, hagrees⟩ := @follows_run _ _ _ accountId earlier _ _ agrees_new
    obtain ⟨m', -, hnext⟩ := @follows_step _ _ _ accountId _ _ hagrees input
    have hbroken := @broken_run _ _ _ accountId _ _ later (breaks_step hagrees.live hbreaks) _ hnext
    have hafter : s = (machine accountId).after ((machine accountId).step
        ((machine accountId).after {} earlier) input).1 later := Machine.after_append _ _ _ _
    rw [← hafter] at hbroken
    rw [(hbroken.dead hgeneration.symm).2] at haccepts
    cases haccepts
  · rw [h.ready, decide_eq_true_eq]

end Runs

end BringUp

end NautilusCtrader
