import NautilusCtrader.Session.BringUp

/-!
# Losses of a session

The loss listeners are called once for each loss of a session, after it and before the next bring-up
begins, and for nothing else: not for a bring-up that fails without one, and not once the session is
stopped (`losses_told`).
-/

namespace NautilusCtrader

open Common

namespace BringUp

variable {κ φ : Type}

/-! ## What may be told -/

/-- How far the losses are told: in no bring-up, or in one without a loss, with one, with one told. -/
inductive Mark
  | none
  | up
  | lost
  | told
deriving DecidableEq, Repr

/-- The next mark, where what is told may follow. -/
def Mark.next : Mark → Told κ φ → Option Mark
  | _, .stopped => some .none
  | .lost, .began _ => Option.none
  | _, .began _ => some .up
  | .up, .lost _ _ => some .lost
  | _, .lost _ _ => Option.none
  | .lost, .lossTold => some .told
  | _, .lossTold => Option.none
  | m, _ => some m

/-- The session is where the losses are told so far. -/
def Phase.Agrees (s : Session κ φ) (m : Mark) : Phase κ φ → Prop
  | .created => s.connected = false ∧ s.state ≠ .ready ∧ m ≠ .lost
  | .connecting => s.connected = false ∧ s.state ≠ .ready ∧ s.lost = false ∧ m = .up
  | .authenticating _ | .restoring _ _ _ => s.state ≠ .ready ∧ m = if s.lost then .lost else .up
  | .waiting => m = if s.lost then .lost else .up
  | .holding => s.lost = true ∧ m = .told
  | .closing _ | .backingOff => s.connected = false ∧ s.state ≠ .ready ∧ (m = .up ∨ m = .told)

/-- A session without a supervisor is not connected, and one with a supervisor is where its phase says. -/
structure Agrees (s : Session κ φ) (m : Mark) : Prop where
  idle : s.supervisor = none → s.connected = false ∧ s.state ≠ .ready ∧ m ≠ .lost
  running : ∀ phase attempt, s.supervisor = some ⟨phase, attempt⟩ →
    s.stopping = false ∧ phase.Agrees s m

/-- A connection belongs to a supervisor. -/
theorem Agrees.live {s : Session κ φ} {m : Mark} (h : Agrees s m) (hconnected : s.connected = true) :
    s.stopping = false := by
  cases hsupervisor : s.supervisor with
  | none =>
    rw [(h.idle hsupervisor).1] at hconnected
    cases hconnected
  | some found => exact (h.running _ _ hsupervisor).1

/-- A drop of a session that is not stopping is a loss. -/
theorem onDisconnect_live {s : Session κ φ} (h : s.stopping = false) :
    s.onDisconnect =
      { s with connected := false, state := .connecting, ready := false }.lose .dropped := by
  unfold Session.onDisconnect
  rw [if_neg (Bool.eq_false_iff.mp h)]

/-- What is told may follow, and the session agrees with it. -/
def Follows (m : Mark) (after : Session κ φ × List (Told κ φ)) : Prop :=
  ∃ m', after.2.foldlM Mark.next m = some m' ∧ Agrees after.1 m'

section Steps

variable {s : Session κ φ} {m : Mark} {attempt : ℕ}

/-- A session whose supervisor comes to an await. -/
theorem agrees_awaits {phase : Phase κ φ} (hsupervisor : s.supervisor = some ⟨phase, attempt⟩)
    (hstopping : s.stopping = false) (hphase : phase.Agrees s m) : Agrees s m where
  idle h := by rw [hsupervisor] at h; cases h
  running found n h := by
    rw [hsupervisor] at h
    cases h
    exact ⟨hstopping, hphase⟩

/-- Nothing happens. -/
theorem follows_nil (h : Agrees s m) : Follows m (s, []) := ⟨m, rfl, h⟩

/-- What is told besides losses leaves the mark. -/
theorem follows_cons {t : Told κ φ} {after : Session κ φ} {told : List (Told κ φ)}
    (ht : Mark.next m t = some m) (h : Follows m (after, told)) : Follows m (after, t :: told) := by
  obtain ⟨m', htold, hagrees⟩ := h
  refine ⟨m', ?_, hagrees⟩
  rw [List.foldlM_cons, ht]
  exact htold

/-- A bring-up begins. -/
theorem follows_beginBringUp (hstopping : s.stopping = false) (hconnected : s.connected = false)
    (hm : m ≠ .lost) : Follows m (s.beginBringUp attempt) := by
  refine ⟨.up, ?_, agrees_awaits rfl hstopping ⟨hconnected, ?_, rfl, rfl⟩⟩
  · cases m with
    | lost => exact absurd rfl hm
    | none | up | told => rfl
  · intro h
    cases h

/-- A bring-up that fails tells of its loss, if it had one. -/
theorem follows_failBringUp (hstopping : s.stopping = false) (hm : m = if s.lost then .lost else .up) :
    Follows m (s.failBringUp attempt) := by
  have hstate : (s.teardownConnection false attempt).state ≠ .ready := by
    intro h
    cases h
  unfold Session.failBringUp
  rw [hstopping]
  cases hlost : s.lost with
  | true =>
    rw [hlost] at hm
    subst hm
    exact ⟨.told, rfl, agrees_awaits rfl hstopping ⟨rfl, hstate, .inr rfl⟩⟩
  | false =>
    rw [hlost] at hm
    subst hm
    exact ⟨.up, rfl, agrees_awaits rfl hstopping ⟨rfl, hstate, .inl rfl⟩⟩

/-- The next restore is run, or the session is ready. -/
theorem follows_restoreNext (hstopping : s.stopping = false) (hstate : s.state ≠ .ready)
    (hm : m = if s.lost then .lost else .up) (rest : List (κ × φ)) :
    Follows m (s.restoreNext attempt rest) := by
  cases rest with
  | nil =>
    rw [Session.restoreNext]
    split
    · exact follows_failBringUp hstopping hm
    · exact follows_nil (agrees_awaits rfl hstopping hm)
  | cons entry rest => exact follows_nil (agrees_awaits rfl hstopping ⟨hstate, hm⟩)

/-- The account is authenticated, and the restores begin. -/
theorem follows_authenticated (hstopping : s.stopping = false) (hm : m = if s.lost then .lost else .up) :
    Follows m (s.authenticated attempt) := by
  have hauthenticated : Mark.next m (.authenticated s.bringUpGeneration : Told κ φ) = some m := by
    cases m <;> rfl
  have hrestoring : Mark.next m (.restoring s.bringUpGeneration : Told κ φ) = some m := by
    cases m <;> rfl
  unfold Session.authenticated
  split
  · exact follows_cons hauthenticated (follows_failBringUp hstopping hm)
  · refine follows_cons hauthenticated (follows_cons hrestoring ?_)
    exact @follows_restoreNext _ _ { s with state := .restoring } _ _ hstopping (fun h => by cases h) hm _

/-- An authentication is answered. -/
theorem follows_authenticate (hstopping : s.stopping = false) (hstate : s.state ≠ .ready)
    (hm : m = if s.lost then .lost else .up) (stage : Stage) (answer : Answer) :
    Follows m (s.authenticate stage attempt answer) := by
  have hawaits (next : Stage) : Follows m (s.awaits (.authenticating next) attempt, []) :=
    follows_nil (agrees_awaits rfl hstopping ⟨hstate, hm⟩)
  have haccount (next : Stage) : Follows m (s.authenticateAccount next attempt, []) :=
    follows_nil (agrees_awaits rfl hstopping ⟨hstate, hm⟩)
  have hfails := @follows_failBringUp _ _ s m attempt hstopping hm
  cases answer with
  | returns due =>
    cases stage with
    | application =>
      unfold Session.authenticate
      dsimp only
      split
      · exact hawaits _
      · exact haccount _
    | refreshingBefore | refreshingFor => exact haccount _
    | account | accountAgain => exact follows_authenticated hstopping hm
  | refused errorCode tokenChanged mayRefresh =>
    cases stage with
    | account =>
      unfold Session.authenticate
      dsimp only
      split
      · exact haccount _
      split
      · exact hfails
      · exact hawaits _
    | refreshingBefore => exact haccount _
    | application | refreshingFor | accountAgain => exact hfails
  | raises => exact hfails

/-- A restore returns. -/
theorem follows_restored [DecidableEq κ] (hstopping : s.stopping = false) (hstate : s.state ≠ .ready)
    (hm : m = if s.lost then .lost else .up) (key : κ) (factory : φ) (rest : List (κ × φ))
    (outcome : Outcome) : Follows m (s.restored attempt key factory rest outcome) := by
  have hran (ok : Bool) : Mark.next m (.ran s.bringUpGeneration key factory ok) = some m := by
    cases m <;> rfl
  have hfails := follows_cons (hran false) (@follows_failBringUp _ _ s m attempt hstopping hm)
  cases outcome with
  | done => exact follows_cons (hran true) (follows_restoreNext hstopping hstate hm rest)
  | connectionError => exact hfails
  | failed =>
    unfold Session.restored
    dsimp only
    split
    · exact hfails
    · exact follows_cons (hran false) (@follows_restoreNext _ _
        { s with failedRestores := insert key s.failedRestores } _ _ hstopping hstate hm rest)

/-- The connection is closed, and the session backs off. -/
theorem follows_closed (hstopping : s.stopping = false) (hconnected : s.connected = false)
    (hstate : s.state ≠ .ready) (hm : m = .up ∨ m = .told) (up stable : Bool) :
    Follows m (s.closed up attempt stable) := by
  have hnot : m ≠ .lost := by
    rcases hm with rfl | rfl <;> exact fun h => by cases h
  unfold Session.closed
  dsimp only
  generalize hafter : (if up then { s with reauthRequested := false } else s) = after
  obtain ⟨hstopping', hconnected', hstate'⟩ :
      after.stopping = false ∧ after.connected = false ∧ after.state ≠ .ready := by
    subst hafter
    cases up <;> exact ⟨hstopping, hconnected, hstate⟩
  generalize (if !up then _ else _ : Supervision.Round) = round
  cases Supervision.supervise attempt round with
  | none => exact follows_nil ⟨fun _ => ⟨hconnected', hstate', hnot⟩, fun phase n h => by cases h⟩
  | some n =>
    dsimp only
    split
    · exact follows_beginBringUp hstopping' hconnected' hnot
    · exact follows_nil (agrees_awaits rfl hstopping' ⟨hconnected', hstate', hm⟩)

/-- A session that is up or coming up is lost. -/
theorem follows_lost {after : Session κ φ} (h : Agrees s m)
    (hlive : s.connected = true ∨ s.state = .ready) (hsupervisor : after.supervisor = s.supervisor)
    (hstopping : after.stopping = s.stopping)
    (hstate : after.state = s.state ∨ after.state = .connecting) (hlost : after.lost = true)
    (generation : ℕ) (cause : Cause) :
    Follows m (after, if s.lost then [] else [.lost generation cause]) := by
  have hready (hnot : s.state ≠ .ready) : after.state ≠ .ready := by
    rcases hstate with heq | heq <;> rw [heq]
    · exact hnot
    · exact fun h => by cases h
  -- without a supervisor nothing is up that could be lost
  cases hfound : s.supervisor with
  | none =>
    obtain ⟨hconnected, hnot, -⟩ := h.idle hfound
    rcases hlive with hlive | hlive
    · rw [hconnected] at hlive
      cases hlive
    · exact absurd hlive hnot
  | some found =>
    obtain ⟨phase, attempt⟩ := found
    rw [hfound] at hsupervisor
    obtain ⟨hgoes, hphase⟩ := h.running _ _ hfound
    rw [hgoes] at hstopping
    -- in a phase that is up the mark says whether a loss is known already
    have hup (hm : m = if s.lost then .lost else .up)
        (hagrees : phase.Agrees after .lost) :
        Follows m (after, if s.lost then [] else [.lost generation cause]) := by
      refine ⟨.lost, ?_, agrees_awaits hsupervisor hstopping hagrees⟩
      cases hwas : s.lost <;> rw [hwas] at hm <;> subst hm <;> rfl
    -- the other phases are not up
    have hdead {P : Prop} (hconnected : s.connected = false) (hnot : s.state ≠ .ready) : P := by
      rcases hlive with hlive | hlive
      · rw [hconnected] at hlive
        cases hlive
      · exact absurd hlive hnot
    cases phase with
    | created => exact hdead hphase.1 hphase.2.1
    | connecting => exact hdead hphase.1 hphase.2.1
    | authenticating stage =>
      exact hup hphase.2 ⟨hready hphase.1, by rw [hlost]; rfl⟩
    | restoring key factory rest =>
      exact hup hphase.2 ⟨hready hphase.1, by rw [hlost]; rfl⟩
    | waiting => exact hup hphase (by unfold Phase.Agrees; rw [hlost]; rfl)
    | holding =>
      obtain ⟨hwas, rfl⟩ := hphase
      rw [hwas]
      exact follows_nil (agrees_awaits hsupervisor hstopping ⟨hlost, rfl⟩)
    | closing up => exact hdead hphase.1 hphase.2.1
    | backingOff => exact hdead hphase.1 hphase.2.1

/-! ## What is as before -/

/-- The session is the same but for its restores. -/
structure Alike (s after : Session κ φ) : Prop where
  supervisor : after.supervisor = s.supervisor
  stopping : after.stopping = s.stopping
  connected : after.connected = s.connected
  state : after.state = s.state
  lost : after.lost = s.lost

/-- Sessions alike agree with the same mark. -/
theorem Alike.agrees {after : Session κ φ} (halike : Alike s after) (h : Agrees s m) :
    Agrees after m where
  idle hnone := by
    rw [halike.supervisor] at hnone
    rw [halike.connected, halike.state]
    exact h.idle hnone
  running phase attempt hsome := by
    rw [halike.supervisor] at hsome
    obtain ⟨hstopping, hphase⟩ := h.running phase attempt hsome
    rw [halike.stopping]
    refine ⟨hstopping, ?_⟩
    cases phase <;>
      simpa only [Phase.Agrees, halike.connected, halike.state, halike.lost] using hphase

/-- A retry of the restores goes on with the next. -/
theorem alike_retryNext [DecidableEq κ] (keys : List κ) (s : Session κ φ) : Alike s (s.retryNext keys) := by
  induction keys generalizing s with
  | nil => exact ⟨rfl, rfl, rfl, rfl, rfl⟩
  | cons key rest ih =>
    unfold Session.retryNext
    split
    · exact ⟨rfl, rfl, rfl, rfl, rfl⟩
    split
    · have hrest := ih { s with failedRestores := s.failedRestores.erase key }
      exact ⟨hrest.supervisor, hrest.stopping, hrest.connected, hrest.state, hrest.lost⟩
    · exact ⟨rfl, rfl, rfl, rfl, rfl⟩

/-- A restore that is retried returns. -/
theorem alike_retried [DecidableEq κ] (r : Retry κ φ) (outcome : Outcome) :
    Alike s (s.retried r outcome).1 := by
  cases outcome with
  | done =>
    unfold Session.retried
    dsimp only
    split
    · exact ⟨rfl, rfl, rfl, rfl, rfl⟩
    · have hrest := alike_retryNext r.rest { s with failedRestores := s.failedRestores.erase r.key }
      exact ⟨hrest.supervisor, hrest.stopping, hrest.connected, hrest.state, hrest.lost⟩
  | connectionError => exact ⟨rfl, rfl, rfl, rfl, rfl⟩
  | failed =>
    unfold Session.retried
    dsimp only
    split
    · exact ⟨rfl, rfl, rfl, rfl, rfl⟩
    · exact alike_retryNext r.rest s

/-- What moves no mark may be told of a session that is alike. -/
theorem follows_alike {after : Session κ φ} (halike : Alike s after) (h : Agrees s m)
    {told : List (Told κ φ)} (htold : ∀ t ∈ told, Mark.next m t = some m) : Follows m (after, told) := by
  induction told with
  | nil => exact ⟨m, rfl, halike.agrees h⟩
  | cons t told ih =>
    exact follows_cons (htold t List.mem_cons_self) (ih fun u hu => htold u (List.mem_cons_of_mem _ hu))

end Steps

/-! ## Steps and runs -/

section Runs

variable [DecidableEq κ] {accountId : ℤ} {s : Session κ φ} {m : Mark}

/-- The supervisor keeps to what may be told. -/
theorem follows_supervise (h : Agrees s m) (input : Input κ φ) : Follows m (s.supervise input) := by
  have hstays := follows_nil h
  unfold Session.supervise
  split
  · exact hstays
  · rename_i phase attempt hsome
    obtain ⟨hstopping, hphase⟩ := h.running _ _ hsome
    split
    · exact follows_beginBringUp hstopping hphase.1 hphase.2.2
    · obtain ⟨-, hstate, hlost, rfl⟩ := hphase
      refine follows_nil (agrees_awaits rfl hstopping ⟨fun hnot => (by cases hnot), ?_⟩)
      show Mark.up = if s.lost then _ else _
      rw [hlost]
      rfl
    · obtain ⟨-, -, hlost, rfl⟩ := hphase
      exact follows_failBringUp hstopping (by rw [hlost]; rfl)
    · exact follows_authenticate hstopping hphase.1 hphase.2 _ _
    · exact follows_restored hstopping hphase.1 hphase.2 _ _ _ _
    · split
      · rename_i settled hlost
        have hm : m = .lost := by
          have hmark : m = if s.lost then .lost else .up := hphase
          rw [hmark, hlost]
          rfl
        subst hm
        refine ⟨.told, rfl, ?_⟩
        cases settled with
        | true => exact agrees_awaits rfl hstopping ⟨rfl, fun hnot => (by cases hnot), .inr rfl⟩
        | false => exact agrees_awaits rfl hstopping ⟨hlost, rfl⟩
      · exact hstays
    · exact follows_nil (agrees_awaits rfl hstopping ⟨rfl, fun hnot => (by cases hnot), .inr hphase.2⟩)
    · exact follows_closed hstopping hphase.1 hphase.2.1 hphase.2.2 _ _
    · obtain ⟨hconnected, -, hm⟩ := hphase
      refine follows_beginBringUp hstopping hconnected ?_
      rcases hm with rfl | rfl <;> exact fun hnot => by cases hnot
    · exact hstays

/-- Every step may follow. -/
theorem follows_step (h : Agrees s m) (input : Input κ φ) :
    Follows m ((machine accountId).step s input) := by
  have hstays := follows_nil h
  have hquiet : ∀ t ∈ ([] : List (Told κ φ)), Mark.next m t = some m := fun t ht => by cases ht
  have hone {t : Told κ φ} (ht : Mark.next m t = some m) : ∀ u ∈ [t], Mark.next m u = some m := by
    intro u hu
    obtain rfl := List.mem_singleton.mp hu
    exact ht
  -- calls and listeners of others leave the phase; the supervisor's own inputs come last
  cases input with
  | start =>
    show Follows m (if s.supervisor.isSome then (s, []) else _)
    cases hsupervisor : s.supervisor with
    | some found => exact hstays
    | none => exact follows_nil (agrees_awaits rfl rfl (h.idle hsupervisor))
  | stop =>
    refine ⟨.none, ?_, ⟨fun _ => ⟨rfl, ?_, ?_⟩, ?_⟩⟩
    · cases m <;> rfl
    · intro hnot
      cases hnot
    · intro hnot
      cases hnot
    · intro phase attempt hsome
      cases hsome
  | disconnects =>
    show Follows m (if s.connected then s.onDisconnect else (s, []))
    split
    · rename_i hconnected
      rw [onDisconnect_live (h.live hconnected)]
      exact @follows_lost _ _ s _
        { s with connected := false, state := .connecting, ready := false, lost := true } h
        (.inl hconnected) rfl rfl (.inr rfl) rfl _ _
    · exact hstays
  | event event =>
    show Follows m (if s.connected then s.onEvent accountId event else (s, []))
    split
    · rename_i hconnected
      unfold Session.onEvent
      split
      · exact @follows_lost _ _ s _ { s with state := .connecting, ready := false, lost := true } h
          (.inl hconnected) rfl rfl (.inr rfl) rfl _ _
      · exact hstays
    · exact hstays
  | reauthenticate =>
    show Follows m (if s.state = .ready ∧ s.lost = false then _ else (s, []))
    split
    · rename_i hready
      exact @follows_lost _ _ s _ { s with reauthRequested := true, lost := true } h
        (.inr hready.1) rfl rfl (.inl rfl) rfl _ _
    · exact hstays
  | addRestore key factory =>
    have halike : Alike s { s with restores := s.restores.set key factory } := ⟨rfl, rfl, rfl, rfl, rfl⟩
    exact follows_alike halike h (hone (by cases m <;> rfl))
  | removeRestore key =>
    have halike : Alike s { s with
        restores := s.restores.erase key
        failedRestores := s.failedRestores.erase key } := ⟨rfl, rfl, rfl, rfl, rfl⟩
    exact follows_alike halike h hquiet
  | markRestoreFailed key =>
    show Follows m (if s.restores.contains key then _ else (s, []))
    split
    · have halike : Alike s { s with failedRestores := insert key s.failedRestores } :=
        ⟨rfl, rfl, rfl, rfl, rfl⟩
      exact follows_alike halike h (hone (by cases m <;> rfl))
    · exact hstays
  | retry order =>
    show Follows m (if s.retry.isNone ∧ order.Nodup ∧ order.toFinset = s.failedRestores then _ else (s, []))
    split
    · exact follows_alike (alike_retryNext order s) h hquiet
    · exact hstays
  | retried outcome =>
    show Follows m (s.retry.elim (s, []) (s.retried · outcome))
    cases s.retry with
    | none => exact hstays
    | some r =>
      refine follows_alike (alike_retried r outcome) h ?_
      cases outcome <;> exact hone (by cases m <;> rfl)
  | retryCancelled =>
    have halike : Alike s { s with retry := none } := ⟨rfl, rfl, rfl, rfl, rfl⟩
    exact follows_alike halike h hquiet
  | runs | connects ok | answers answer | restored outcome | wakes settled | held | closed stable | slept =>
    exact follows_supervise h _

/-- What a session tells may be told, in every run. -/
theorem follows_run (inputs : List (Input κ φ)) {s : Session κ φ} {m : Mark} (h : Agrees s m) :
    Follows m ((machine accountId).after s inputs, (machine accountId).told s inputs) := by
  induction inputs generalizing s m with
  | nil => exact follows_nil h
  | cons input inputs ih =>
    obtain ⟨m', htold, hagrees⟩ := @follows_step _ _ _ accountId _ _ h input
    obtain ⟨m'', hrest, hagrees'⟩ := ih hagrees
    refine ⟨m'', ?_, hagrees'⟩
    rw [Machine.told_cons, List.foldlM_append, htold]
    exact hrest

end Runs

/-! ## The losses of one bring-up -/

def Told.isBegan : Told κ φ → Bool
  | .began _ => true
  | _ => false

/-- A loss, or the calls of the listeners. -/
def Told.isLoss : Told κ φ → Bool
  | .lost _ _ | .lossTold => true
  | _ => false

/-- What is no bring-up, stop or loss leaves the mark. -/
theorem next_other {t : Told κ φ} (hbegan : t.isBegan = false) (hstopped : t ≠ .stopped)
    (hloss : t.isLoss = false) (m : Mark) : m.next t = some m := by
  cases t with
  | began => cases hbegan
  | stopped => exact absurd rfl hstopped
  | lost | lossTold => cases hloss
  | _ => cases m <;> rfl

/-- A stop may always follow. -/
theorem next_stopped (m : Mark) : m.next (.stopped : Told κ φ) = some .none := by cases m <;> rfl

/-- What follows in a segment, after its first record. -/
theorem segment_cons {t : Told κ φ} {segment : List (Told κ φ)} {m m' : Mark}
    (h : (t :: segment).foldlM Mark.next m = some m') :
    ∃ next, m.next t = some next ∧ segment.foldlM Mark.next next = some m' := by
  rw [List.foldlM_cons] at h
  cases hnext : m.next t with
  | none => rw [hnext] at h; cases h
  | some next =>
    rw [hnext] at h
    exact ⟨next, rfl, h⟩

/-- Nothing is lost or told where there is no bring-up, or its loss is told. -/
theorem losses_over {segment : List (Told κ φ)} {m m' : Mark} (hm : m = .none ∨ m = .told)
    (h : segment.foldlM Mark.next m = some m') (hbegan : ∀ t ∈ segment, t.isBegan = false) :
    segment.filter Told.isLoss = [] ∧ (.stopped ∉ segment → m' = m) := by
  induction segment generalizing m with
  | nil =>
    cases h
    exact ⟨rfl, fun _ => rfl⟩
  | cons t segment ih =>
    obtain ⟨next, hnext, hrest⟩ := segment_cons h
    have hbegan' : ∀ u ∈ segment, u.isBegan = false := fun u hu => hbegan u (List.mem_cons_of_mem t hu)
    by_cases hstopped : t = .stopped
    · subst hstopped
      rw [next_stopped] at hnext
      cases hnext
      exact ⟨(ih (.inl rfl) hrest hbegan').1, fun hnot => absurd List.mem_cons_self hnot⟩
    · cases hloss : t.isLoss with
      | true =>
        cases t with
        | lost | lossTold => rcases hm with rfl | rfl <;> cases hnext
        | _ => cases hloss
      | false =>
        rw [next_other (hbegan t List.mem_cons_self) hstopped hloss] at hnext
        cases hnext
        obtain ⟨hfilter, hmark⟩ := ih hm hrest hbegan'
        refine ⟨?_, fun hnot => hmark fun hmem => hnot (List.mem_cons_of_mem t hmem)⟩
        rw [List.filter_cons, hloss]
        exact hfilter

/-- Nothing is lost or told once the session is stopped, up to its next bring-up. -/
theorem losses_stopped {earlier later : List (Told κ φ)} {m m' : Mark}
    (h : (earlier ++ .stopped :: later).foldlM Mark.next m = some m')
    (hbegan : ∀ t ∈ later, t.isBegan = false) : later.filter Told.isLoss = [] := by
  rw [List.foldlM_append] at h
  cases hearlier : earlier.foldlM Mark.next m with
  | none => rw [hearlier] at h; cases h
  | some found =>
    rw [hearlier] at h
    obtain ⟨next, hnext, hlater⟩ := @segment_cons _ _ .stopped later found m' h
    rw [next_stopped] at hnext
    cases hnext
    exact (losses_over (.inl rfl) hlater hbegan).1

/-- A loss is told once. -/
theorem losses_lost {segment : List (Told κ φ)} {m' : Mark}
    (h : segment.foldlM Mark.next .lost = some m') (hbegan : ∀ t ∈ segment, t.isBegan = false) :
    (segment.filter Told.isLoss = [] ∧ (.stopped ∉ segment → m' = .lost)) ∨
      segment.filter Told.isLoss = [.lossTold] := by
  induction segment with
  | nil =>
    cases h
    exact .inl ⟨rfl, fun _ => rfl⟩
  | cons t segment ih =>
    obtain ⟨next, hnext, hrest⟩ := segment_cons h
    have hbegan' : ∀ u ∈ segment, u.isBegan = false := fun u hu => hbegan u (List.mem_cons_of_mem t hu)
    by_cases hstopped : t = .stopped
    · subst hstopped
      cases hnext
      exact .inl ⟨(losses_over (.inl rfl) hrest hbegan').1, fun hnot => absurd List.mem_cons_self hnot⟩
    · cases hloss : t.isLoss with
      | true =>
        cases t with
        | lost => cases hnext
        | lossTold =>
          cases hnext
          refine .inr ?_
          rw [List.filter_cons, hloss, (losses_over (.inr rfl) hrest hbegan').1]
          rfl
        | _ => cases hloss
      | false =>
        rw [next_other (hbegan t List.mem_cons_self) hstopped hloss] at hnext
        cases hnext
        rw [List.filter_cons, hloss]
        rcases ih hrest hbegan' with ⟨hfilter, hmark⟩ | hfilter
        · exact .inl ⟨hfilter, fun hnot => hmark fun hmem => hnot (List.mem_cons_of_mem t hmem)⟩
        · exact .inr hfilter

/-- The losses of a bring-up: none, or one that is told once or not told. -/
theorem losses_up {segment : List (Told κ φ)} {m' : Mark}
    (h : segment.foldlM Mark.next .up = some m') (hbegan : ∀ t ∈ segment, t.isBegan = false) :
    segment.filter Told.isLoss = [] ∨
      ∃ generation cause,
        (segment.filter Told.isLoss = [.lost generation cause] ∧ (.stopped ∉ segment → m' = .lost)) ∨
          segment.filter Told.isLoss = [.lost generation cause, .lossTold] := by
  induction segment with
  | nil => exact .inl rfl
  | cons t segment ih =>
    obtain ⟨next, hnext, hrest⟩ := segment_cons h
    have hbegan' : ∀ u ∈ segment, u.isBegan = false := fun u hu => hbegan u (List.mem_cons_of_mem t hu)
    have hlater (hnot : .stopped ∉ t :: segment) : .stopped ∉ segment :=
      fun hmem => hnot (List.mem_cons_of_mem t hmem)
    by_cases hstopped : t = .stopped
    · subst hstopped
      cases hnext
      exact .inl (losses_over (.inl rfl) hrest hbegan').1
    · cases hloss : t.isLoss with
      | true =>
        cases t with
        | lost generation cause =>
          cases hnext
          refine .inr ⟨generation, cause, ?_⟩
          rw [List.filter_cons, hloss]
          rcases losses_lost hrest hbegan' with ⟨hfilter, hmark⟩ | hfilter
          · exact .inl ⟨by rw [hfilter]; rfl, fun hnot => hmark (hlater hnot)⟩
          · exact .inr (by rw [hfilter]; rfl)
        | lossTold => cases hnext
        | _ => cases hloss
      | false =>
        rw [next_other (hbegan t List.mem_cons_self) hstopped hloss] at hnext
        cases hnext
        rw [List.filter_cons, hloss]
        rcases ih hrest hbegan' with hfilter | ⟨generation, cause, ⟨hfilter, hmark⟩ | hfilter⟩
        · exact .inl hfilter
        · exact .inr ⟨generation, cause, .inl ⟨hfilter, fun hnot => hmark (hlater hnot)⟩⟩
        · exact .inr ⟨generation, cause, .inr hfilter⟩

/-- A new session has told nothing. -/
theorem agrees_new : Agrees ({} : Session κ φ) .none := by
  refine ⟨fun _ => ⟨rfl, ?_, ?_⟩, ?_⟩
  · intro h
    cases h
  · intro h
    cases h
  · intro phase attempt h
    cases h

/-- **Each loss is told once.** From one bring-up up to the next, a session is lost once at most, and the
listeners are called once at most, after it and never after a stop; they are called unless the session
is stopped first. -/
theorem losses_told [DecidableEq κ] {accountId : ℤ} {inputs : List (Input κ φ)}
    {before segment after : List (Told κ φ)} {generation : ℕ}
    (htold : (machine accountId).told {} inputs = before ++ .began generation :: (segment ++ after))
    (hbegan : ∀ t ∈ segment, t.isBegan = false) :
    (∃ generation cause, segment.filter Told.isLoss <+: [.lost generation cause, .lossTold]) ∧
      ((∃ next later, after = .began next :: later) → .stopped ∉ segment →
        segment.filter Told.isLoss = [] ∨
          ∃ generation cause, segment.filter Told.isLoss = [.lost generation cause, .lossTold]) ∧
      ∀ earlier later, segment = earlier ++ .stopped :: later → later.filter Told.isLoss = [] := by
  obtain ⟨m, hfold, -⟩ := @follows_run _ _ _ accountId inputs _ _ agrees_new
  dsimp only at hfold
  rw [htold, List.foldlM_append] at hfold
  cases hbefore : before.foldlM Mark.next .none with
  | none => rw [hbefore] at hfold; cases hfold
  | some m₁ =>
    rw [hbefore] at hfold
    obtain ⟨m₂, hup, hfold⟩ := segment_cons hfold
    have hm₂ : m₂ = .up := by
      cases m₁ <;> cases hup <;> rfl
    subst hm₂
    rw [List.foldlM_append] at hfold
    cases hsegment : segment.foldlM Mark.next .up with
    | none => rw [hsegment] at hfold; cases hfold
    | some m₃ =>
      rw [hsegment] at hfold
      have hlosses := losses_up hsegment hbegan
      refine ⟨?_, ?_, ?_⟩
      · rcases hlosses with hnone | ⟨g, cause, ⟨hlost, -⟩ | hboth⟩
        · exact ⟨generation, .dropped, by rw [hnone]; exact List.nil_prefix⟩
        · exact ⟨g, cause, by rw [hlost]; exact ⟨[.lossTold], rfl⟩⟩
        · exact ⟨g, cause, by rw [hboth]⟩
      · rintro ⟨next, later, rfl⟩ hstopped
        obtain ⟨m₄, hnext, -⟩ := segment_cons hfold
        rcases hlosses with hnone | ⟨g, cause, ⟨-, hmark⟩ | hboth⟩
        · exact .inl hnone
        · rw [hmark hstopped] at hnext
          cases hnext
        · exact .inr ⟨g, cause, hboth⟩
      · rintro earlier later rfl
        exact losses_stopped hsegment fun t ht =>
          hbegan t (List.mem_append_right _ (List.mem_cons_of_mem _ ht))

/-- The connection drops while the session waits, and the session comes up anew. -/
theorem losses_told_dropped :
    let told : List (Told String ℕ) := (machine 7).told {} [.start, .runs, .connects true,
      .answers (.returns false), .answers (.returns false), .disconnects, .wakes true, .closed false, .slept]
    told = [] ++ .began 1 ::
        ([.authenticated 1, .restoring 1, .lost 1 .dropped, .lossTold] ++ [.began 2]) ∧
      ∃ generation cause,
        [.authenticated 1, .restoring 1, .lost 1 .dropped, .lossTold].filter (@Told.isLoss String ℕ) <+:
          [.lost generation cause, .lossTold] := by
  intro told
  have htold : told = [] ++ .began 1 ::
      ([.authenticated 1, .restoring 1, .lost 1 .dropped, .lossTold] ++ [.began 2]) := by decide
  exact ⟨htold, (losses_told htold (by decide)).1⟩

end BringUp

end NautilusCtrader
