import NautilusCtrader.Wire.Arrivals

/-!
# Requests and their results

A request that is made on a connection is given one result at most, and one exactly by the time the
connection is lost or closed, unless its caller has given it up (`answered_once`). The loss itself is told
once, and nothing after it (`told_lost`).
-/

namespace NautilusCtrader

open Common

namespace Wire

variable {M : Type} {schema : Schema M}

/-! ## Futures that wait -/

/-- Only under `id` a future of the request waits. -/
def Waits (request : ℕ) (id : String) (pending : Dict String Future) : Prop :=
  ∀ other, pending.get? other = some ⟨request, false⟩ ↔ other = id

/-- No future of the request waits. -/
def Idle (request : ℕ) (pending : Dict String Future) : Prop :=
  ∀ id, pending.get? id ≠ some ⟨request, false⟩

section Waits

variable {request : ℕ} {id other : String} {pending : Dict String Future} {future : Future}

/-- Without futures none of the request waits. -/
theorem idle_empty : Idle request Dict.empty := by
  intro id hget
  cases hget

/-- Forgetting a future makes none wait. -/
theorem Idle.erase (h : Idle request pending) (other : String) : Idle request (pending.erase other) :=
  fun id hget => h id (Dict.get?_erase_eq_some.mp hget).2

/-- Nor does setting another's. -/
theorem Idle.set (h : Idle request pending) (hfuture : future ≠ ⟨request, false⟩) (other : String) :
    Idle request (pending.set other future) := by
  intro id hget
  rcases Dict.get?_set_eq_some.mp hget with ⟨-, heq⟩ | ⟨-, hget⟩
  · exact hfuture heq
  · exact h id hget

/-- Setting the request's own makes it wait. -/
theorem Idle.waits (h : Idle request pending) (id : String) :
    Waits request id (pending.set id ⟨request, false⟩) := by
  intro other
  constructor
  · intro hget
    rcases Dict.get?_set_eq_some.mp hget with ⟨rfl, -⟩ | ⟨-, hget⟩
    · rfl
    · exact absurd hget (h other)
  · rintro rfl
    exact Dict.get?_set_self _ _ _

/-- Forgetting the one that waits leaves none. -/
theorem Waits.erase_self (h : Waits request id pending) : Idle request (pending.erase id) := by
  intro other hget
  obtain ⟨hne, hget⟩ := Dict.get?_erase_eq_some.mp hget
  exact hne ((h other).mp hget)

/-- So does setting another in its place. -/
theorem Waits.set_self (h : Waits request id pending) (hfuture : future ≠ ⟨request, false⟩) :
    Idle request (pending.set id future) := by
  intro other hget
  rcases Dict.get?_set_eq_some.mp hget with ⟨-, heq⟩ | ⟨hne, hget⟩
  · exact hfuture heq
  · exact hne ((h other).mp hget).symm

/-- Forgetting another's leaves it waiting. -/
theorem Waits.erase (h : Waits request id pending) (hne : other ≠ id) :
    Waits request id (pending.erase other) := by
  intro found
  rw [← h found]
  constructor
  · exact fun hget => (Dict.get?_erase_eq_some.mp hget).2
  · intro hget
    refine Dict.get?_erase_eq_some.mpr ⟨?_, hget⟩
    rintro rfl
    exact hne ((h _).mp hget)

/-- So does setting another's. -/
theorem Waits.set (h : Waits request id pending) (hne : other ≠ id) (hfuture : future ≠ ⟨request, false⟩) :
    Waits request id (pending.set other future) := by
  intro found
  rw [← h found]
  constructor
  · intro hget
    rcases Dict.get?_set_eq_some.mp hget with ⟨-, heq⟩ | ⟨-, hget⟩
    · exact absurd heq hfuture
    · exact hget
  · intro hget
    refine Dict.get?_set_eq_some.mpr (.inr ⟨?_, hget⟩)
    rintro rfl
    exact hne ((h _).mp hget)

/-- None that waits is counted as none. -/
theorem Idle.count (h : Idle request pending) : pending.values.count ⟨request, false⟩ = 0 := by
  refine List.count_eq_zero.mpr fun hmem => ?_
  obtain ⟨id, hget⟩ := Dict.mem_values.mp hmem
  exact h id hget

/-- The one that waits is counted once. -/
theorem Waits.count (h : Waits request id pending) : pending.values.count ⟨request, false⟩ = 1 := by
  have hkeys : pending.keys.count id = 1 := by
    refine List.count_eq_one_of_mem pending.nodup ?_
    exact List.mem_map.mpr ⟨_, Dict.get?_eq_some.mp ((h id).mpr rfl), rfl⟩
  rw [← hkeys, Dict.values, Dict.keys, List.count_eq_countP, List.count_eq_countP, List.countP_map,
    List.countP_map]
  refine List.countP_congr fun entry hentry => ?_
  have hget : pending.get? entry.1 = some entry.2 := Dict.get?_eq_some.mpr hentry
  simp only [Function.comp_apply, beq_iff_eq]
  rw [← h entry.1, hget, Option.some.injEq]

end Waits

/-! ## What a request is given -/

/-- The result that is told to the request, if it is one of its. -/
def Told.result? (request : ℕ) : Told M → Option (Result M)
  | .result found given => if found = request then some given else none
  | _ => none

def resultsOf (request : ℕ) (told : List (Told M)) : List (Result M) :=
  told.filterMap (Told.result? request)

/-- The results of a request are told piece by piece. -/
theorem resultsOf_append (request : ℕ) (told more : List (Told M)) :
    resultsOf request (told ++ more) = resultsOf request told ++ resultsOf request more :=
  List.filterMap_append

/-- A result counts for its own request alone. -/
theorem resultsOf_result (request found : ℕ) (result : Result M) :
    resultsOf request [.result found result] = if found = request then [result] else [] := by
  by_cases h : found = request <;> simp [resultsOf, Told.result?, h]

/-- A request with `n` results: it waits for one, or has had one, or was given up. -/
def Stands (request : ℕ) (id : String) (gaveUp : Prop) (n : ℕ) (pending : Dict String Future) : Prop :=
  (n = 0 ∧ Waits request id pending) ∨ (n ≤ 1 ∧ (¬gaveUp → n = 1) ∧ Idle request pending)

section Stands

variable {request : ℕ} {id : String} {gaveUp : Prop} {n : ℕ} {c : Connection}

/-- Failing the pending requests gives each that waits one result. -/
theorem resultsOf_rejectPending (error : LossError) :
    (resultsOf request (@Connection.rejectPending M c error).2).length =
      c.pending.values.count ⟨request, false⟩ := by
  show ((_ : List Future).map _ |>.filterMap _).length = _
  induction c.pending.values with
  | nil => rfl
  | cons future futures ih =>
    obtain ⟨found, done⟩ := future
    cases done with
    | true => simpa using ih
    | false =>
      by_cases hfound : found = request
      · subst hfound
        simpa [Told.result?] using ih
      · simpa [Told.result?, hfound] using ih

/-- A loss gives each request that waits its result. -/
theorem stands_rejectPending (h : Stands request id gaveUp n c.pending) (error : LossError) :
    Stands request id gaveUp (n + (resultsOf request (@Connection.rejectPending M c error).2).length)
      (@Connection.rejectPending M c error).1.pending := by
  rw [resultsOf_rejectPending]
  rcases h with ⟨rfl, hwaits⟩ | ⟨hle, hone, hidle⟩
  · rw [hwaits.count]
    exact .inr ⟨Nat.le_refl _, fun _ => rfl, idle_empty⟩
  · rw [hidle.count]
    exact .inr ⟨hle, hone, idle_empty⟩

/-- A loss gives a waiting request its result and leaves none waiting. -/
theorem stands_fail (h : Stands request id gaveUp n c.pending) (error : LossError) :
    Stands request id gaveUp (n + (resultsOf request (@Connection.fail M c error).2).length)
      (@Connection.fail M c error).1.pending := by
  have hrejected := @stands_rejectPending M _ _ _ _ { c with connected := false } h error
  have hnothing : resultsOf request (if c.connected then [.disconnected error] else [] : List (Told M)) =
      [] := by
    split <;> rfl
  unfold Connection.fail
  dsimp only
  rw [resultsOf_append, hnothing, List.append_nil]
  exact hrejected

/-- A message handed over gives a request that waits at most one result. -/
theorem stands_handed {envelope : Envelope} {pending : Dict String Future} {told : List (Told M)}
    (h : Stands request id gaveUp n c.pending) (hhanded : Handed schema c envelope pending told) :
    Stands request id gaveUp (n + (resultsOf request told).length) pending := by
  cases hhanded with
  | nothing | event => exact h
  | @late payload other hparse hpending =>
    show Stands request id gaveUp n (c.pending.erase other)
    rcases h with ⟨hn, hwaits⟩ | ⟨hle, hone, hidle⟩
    · refine .inl ⟨hn, hwaits.erase ?_⟩
      rintro rfl
      exact hpending request ((hwaits _).mpr rfl)
    · exact .inr ⟨hle, hone, hidle.erase other⟩
  | @result payload other found hparse hid hpending =>
    by_cases hfound : found = request
    · subst hfound
      rcases h with ⟨rfl, hwaits⟩ | ⟨-, -, hidle⟩
      · obtain rfl := (hwaits other).mp hpending
        rw [resultsOf_result, if_pos rfl]
        exact .inr ⟨Nat.le_refl _, fun _ => rfl, hwaits.erase_self⟩
      · exact absurd hpending (hidle other)
    · rw [resultsOf_result, if_neg hfound]
      rcases h with ⟨hn, hwaits⟩ | ⟨hle, hone, hidle⟩
      · refine .inl ⟨hn, hwaits.erase ?_⟩
        rintro rfl
        have hsame := hpending.symm.trans ((hwaits _).mpr rfl)
        cases hsame
        exact hfound rfl
      · exact .inr ⟨hle, hone, hidle.erase other⟩

/-- So does a batch of messages. -/
theorem stands_dispatchAll (envelopes : List Envelope) (h : Stands request id gaveUp n c.pending) :
    Stands request id gaveUp (n + (resultsOf request (c.dispatchAll schema envelopes).2).length)
      (c.dispatchAll schema envelopes).1.pending := by
  induction envelopes generalizing c n with
  | nil => exact h
  | cons envelope envelopes ih =>
    obtain ⟨pending, told, hdispatch, hhanded⟩ := @dispatch_handed _ schema c envelope
    rw [Connection.dispatchAll, hdispatch]
    dsimp only
    rw [resultsOf_append, List.length_append, ← Nat.add_assoc]
    exact ih (stands_handed h hhanded)

/-- So do the bytes of a chunk. -/
theorem stands_data (h : Stands request id gaveUp n c.pending) (chunk : List UInt8) :
    Stands request id gaveUp (n + (resultsOf request (c.data schema chunk).2).length)
      (c.data schema chunk).1.pending := by
  unfold Connection.data
  split
  · dsimp only
    generalize hfed : (framing schema).feed c.reader chunk = fed
    obtain ⟨reader, envelopes⟩ := fed
    have hdispatched := @stands_dispatchAll _ schema _ _ _ _ { c with reader } envelopes h
    dsimp only
    split
    · exact hdispatched
    · dsimp only
      rw [resultsOf_append, List.length_append, ← Nat.add_assoc]
      exact stands_fail hdispatched _
  · exact h

end Stands

/-! ## Whole runs -/

/-- The request an input makes. -/
def Input.request? : Input → Option ℕ
  | .request _ made => some made
  | _ => none

/-- The caller gives up what waits under the id, or another request takes the id. -/
def Input.givesUp (id : String) : Input → Bool
  | .request other _ | .abandoned other | .forgotten other => other == id
  | _ => false

section Runs

variable {request : ℕ} {id : String} {gaveUp : Prop} {n : ℕ} {c : Connection}

/-- Another future under the request's id gives the request up, if it waits. -/
theorem stands_set (h : Stands request id gaveUp n c.pending) {other : String} {future : Future}
    (hfuture : future ≠ ⟨request, false⟩) (hgaveUp : other = id → n = 0 → gaveUp) :
    Stands request id gaveUp n (c.pending.set other future) := by
  rcases h with ⟨rfl, hwaits⟩ | ⟨hle, hone, hidle⟩
  · by_cases hother : other = id
    · subst hother
      exact .inr ⟨Nat.zero_le _, fun hnot => absurd (hgaveUp rfl rfl) hnot, hwaits.set_self hfuture⟩
    · exact .inl ⟨rfl, hwaits.set hother hfuture⟩
  · exact .inr ⟨hle, hone, hidle.set hfuture other⟩

/-- An input leaves a request standing, and adds the results it tells. -/
theorem stands_step (h : Stands request id gaveUp n c.pending) {input : Input}
    (hrequest : input.request? ≠ some request)
    (hgaveUp : input.givesUp id = true → n = 0 → gaveUp) :
    Stands request id gaveUp (n + (resultsOf request ((machine schema).step c input).2).length)
      ((machine schema).step c input).1.pending := by
  cases input with
  | data chunk => exact stands_data h chunk
  | endOfStream | readFails detail =>
    show Stands request id gaveUp (n + (resultsOf request (if c.reading then _ else (c, [])).2).length)
      (if c.reading then _ else (c, [])).1.pending
    split
    · exact stands_fail h _
    · exact h
  | silence secs =>
    show Stands request id gaveUp (n + (resultsOf request (if c.connected then _ else (c, [])).2).length)
      (if c.connected then _ else (c, [])).1.pending
    split
    · exact stands_fail h _
    · exact h
  | beginClose => exact stands_rejectPending h _
  | request other found =>
    show Stands request id gaveUp (n + (resultsOf request (if c.connected then _ else (c, [])).2).length)
      (if c.connected then _ else (c, [])).1.pending
    split
    · refine stands_set h ?_ fun hother => hgaveUp (beq_iff_eq.mpr hother)
      rintro heq
      exact hrequest (congrArg (fun future : Future => some future.request) heq)
    · exact h
  | abandoned other =>
    show Stands request id gaveUp n ((c.pending.get? other).elim c.pending fun future =>
      c.pending.set other { future with done := true })
    cases c.pending.get? other with
    | none => exact h
    | some future =>
      refine stands_set h ?_ fun hother => hgaveUp (beq_iff_eq.mpr hother)
      rintro ⟨⟩
  | forgotten other =>
    show Stands request id gaveUp n (c.pending.erase other)
    -- a future that is forgotten while it waits was given up
    rcases h with ⟨rfl, hwaits⟩ | ⟨hle, hone, hidle⟩
    · by_cases hother : other = id
      · subst hother
        exact .inr ⟨Nat.zero_le _, fun hnot => absurd (hgaveUp (beq_self_eq_true _) rfl) hnot,
          hwaits.erase_self⟩
      · exact .inl ⟨rfl, hwaits.erase hother⟩
    · exact .inr ⟨hle, hone, hidle.erase other⟩

/-- A run leaves a request standing: it waits, or has its one result, or was given up before it. -/
theorem stands_run (inputs : List Input) (h : Stands request id gaveUp n c.pending)
    (hrequest : ∀ input ∈ inputs, input.request? ≠ some request)
    (hgaveUp : ∀ before input after, inputs = before ++ input :: after → input.givesUp id = true →
      n + (resultsOf request ((machine schema).told c before)).length = 0 → gaveUp) :
    Stands request id gaveUp (n + (resultsOf request ((machine schema).told c inputs)).length)
      ((machine schema).after c inputs).pending := by
  induction inputs generalizing c n with
  | nil => exact h
  | cons input inputs ih =>
    rw [Machine.told_cons, Machine.after_cons, resultsOf_append, List.length_append, ← Nat.add_assoc]
    refine ih (stands_step h (hrequest _ List.mem_cons_self) (hgaveUp [] input inputs rfl))
      (fun i hi => hrequest i (List.mem_cons_of_mem _ hi)) fun before next after hsplit hgives hnone => ?_
    refine hgaveUp (input :: before) next after (by rw [hsplit, List.cons_append]) hgives ?_
    rw [Machine.told_cons, resultsOf_append, List.length_append, ← Nat.add_assoc]
    exact hnone

end Runs

/-! ## The loss -/

/-- A connection that is lost or closed: no request is pending. -/
structure Lost (c : Connection) : Prop where
  connected : c.connected = false
  pending : c.pending = Dict.empty

/-- Once lost, messages are not handed over. -/
theorem lost_dispatchAll (envelopes : List Envelope) {c : Connection} (hconnected : c.connected = false) :
    c.dispatchAll schema envelopes = (c, []) := by
  induction envelopes with
  | nil => rfl
  | cons envelope envelopes ih =>
    have hdispatch : c.dispatch schema envelope = (c, []) := by
      unfold Connection.dispatch
      rw [hconnected]
      rfl
    rw [Connection.dispatchAll, hdispatch]
    dsimp only
    rw [ih]
    rfl

/-- A second loss does nothing. -/
theorem lost_fail {c : Connection} (h : Lost c) (error : LossError) :
    Lost (@Connection.fail M c error).1 ∧ (@Connection.fail M c error).2 = [] := by
  refine ⟨⟨rfl, rfl⟩, ?_⟩
  simp only [Connection.fail, Connection.rejectPending, h.connected, h.pending]
  rfl

/-- A connection that is lost stays so, and tells nothing more. -/
theorem lost_step {c : Connection} (h : Lost c) (input : Input) :
    Lost ((machine schema).step c input).1 ∧ ((machine schema).step c input).2 = [] := by
  cases input with
  | data chunk =>
    show Lost (c.data schema chunk).1 ∧ (c.data schema chunk).2 = []
    unfold Connection.data
    split
    · dsimp only
      generalize (framing schema).feed c.reader chunk = fed
      have hlost : Lost { c with reader := fed.1 } := ⟨h.connected, h.pending⟩
      rw [lost_dispatchAll fed.2 hlost.connected]
      split
      · exact ⟨hlost, rfl⟩
      · exact @lost_fail M { c with reader := fed.1, reading := false } ⟨h.connected, h.pending⟩ _
    · exact ⟨h, rfl⟩
  | endOfStream | readFails detail =>
    show Lost (if c.reading then _ else (c, [])).1 ∧ (if c.reading then _ else (c, [])).2 = []
    split
    · exact @lost_fail M { c with reading := false } ⟨h.connected, h.pending⟩ _
    · exact ⟨h, rfl⟩
  | silence secs =>
    show Lost (if c.connected then _ else (c, [])).1 ∧ (if c.connected then _ else (c, [])).2 = []
    rw [h.connected]
    exact ⟨h, rfl⟩
  | beginClose =>
    refine ⟨⟨rfl, rfl⟩, ?_⟩
    show ((c.pending.values.filter fun future => !future.done).map _ : List (Told M)) = []
    rw [h.pending]
    rfl
  | request id request =>
    show Lost (if c.connected then _ else (c, [])).1 ∧ (if c.connected then _ else (c, [])).2 = []
    rw [h.connected]
    exact ⟨h, rfl⟩
  | abandoned id =>
    refine ⟨⟨h.connected, ?_⟩, rfl⟩
    show (c.abandon id).pending = Dict.empty
    unfold Connection.abandon
    rw [h.pending]
    rfl
  | forgotten id =>
    refine ⟨⟨h.connected, ?_⟩, rfl⟩
    show c.pending.erase id = Dict.empty
    rw [h.pending]
    rfl

/-- Once lost, a connection tells nothing more. -/
theorem lost_run (inputs : List Input) {c : Connection} (h : Lost c) :
    Lost ((machine schema).after c inputs) ∧ (machine schema).told c inputs = [] := by
  induction inputs generalizing c with
  | nil => exact ⟨h, rfl⟩
  | cons input inputs ih =>
    obtain ⟨hlost, htold⟩ := @lost_step _ schema _ h input
    obtain ⟨hrest, hnothing⟩ := ih hlost
    refine ⟨hrest, ?_⟩
    rw [Machine.told_cons, htold, hnothing]
    rfl

/-- Whether the disconnect handler is called. -/
def Told.isDisconnected : Told M → Bool
  | .disconnected _ => true
  | _ => false

/-- Nothing that is told calls the disconnect handler. -/
def Quiet (told : List (Told M)) : Prop := ∀ t ∈ told, t.isDisconnected = false

/-- Two quiet pieces are quiet together. -/
theorem Quiet.append {told more : List (Told M)} (h : Quiet told) (hmore : Quiet more) :
    Quiet (told ++ more) := by
  intro t ht
  rcases List.mem_append.mp ht with ht | ht
  · exact h t ht
  · exact hmore t ht

/-- Telling nothing is quiet. -/
theorem quiet_nil : Quiet ([] : List (Told M)) := by
  intro t ht
  cases ht

/-- Failing the pending requests tells no loss to the handler. -/
theorem quiet_rejectPending (c : Connection) (error : LossError) :
    Quiet (@Connection.rejectPending M c error).2 := by
  intro t ht
  obtain ⟨future, -, rfl⟩ := List.mem_map.mp ht
  rfl

/-- Nor does dispatching messages, which leaves the connection up. -/
theorem quiet_dispatchAll (envelopes : List Envelope) (c : Connection) :
    Quiet (c.dispatchAll schema envelopes).2 ∧
      (c.dispatchAll schema envelopes).1.connected = c.connected := by
  induction envelopes generalizing c with
  | nil => exact ⟨quiet_nil, rfl⟩
  | cons envelope envelopes ih =>
    obtain ⟨pending, told, hdispatch, hhanded⟩ := @dispatch_handed _ schema c envelope
    have hquiet : Quiet told := by
      cases hhanded with
      | nothing => exact quiet_nil
      | event | late | result =>
        intro t ht
        obtain rfl := List.mem_singleton.mp ht
        rfl
    obtain ⟨hrest, hconnected⟩ := ih { c with pending }
    rw [Connection.dispatchAll, hdispatch]
    exact ⟨hquiet.append hrest, hconnected⟩

/-- What an input does to a connection that is not lost: it stays so, or it is lost and that is the last
that is told. -/
def Goes (c : Connection) (told : List (Told M)) : Prop :=
  (c.connected = true ∧ Quiet told) ∨
    (Lost c ∧ ∃ before last, told = before ++ last ∧ Quiet before ∧ last.length ≤ 1)

/-- A loss goes at most once. -/
theorem goes_fail {c : Connection} {told : List (Told M)} (hquiet : Quiet told) (error : LossError) :
    Goes (c.fail (M := M) error).1 (told ++ (c.fail error).2) := by
  refine .inr ⟨⟨rfl, rfl⟩, told ++ (@Connection.rejectPending M { c with connected := false } error).2,
    if c.connected then [.disconnected error] else [], ?_, ?_, ?_⟩
  · rw [List.append_assoc]
    rfl
  · exact hquiet.append (quiet_rejectPending _ _)
  · split
    · exact Nat.le_refl _
    · exact Nat.zero_le _

/-- An input leaves a connection that is up, or loses it and tells so once. -/
theorem goes_step {c : Connection} (h : c.connected = true) (input : Input) :
    Goes ((machine schema).step c input).1 ((machine schema).step c input).2 := by
  have hstays : Goes c ([] : List (Told M)) := .inl ⟨h, quiet_nil⟩
  cases input with
  | data chunk =>
    show Goes (c.data schema chunk).1 (c.data schema chunk).2
    unfold Connection.data
    split
    · dsimp only
      generalize (framing schema).feed c.reader chunk = fed
      obtain ⟨hquiet, hconnected⟩ := @quiet_dispatchAll _ schema fed.2 { c with reader := fed.1 }
      split
      · exact .inl ⟨hconnected.trans h, hquiet⟩
      · exact goes_fail hquiet _
    · exact hstays
  | endOfStream | readFails detail =>
    show Goes (if c.reading then _ else (c, [])).1 (if c.reading then _ else (c, [])).2
    split
    · exact goes_fail quiet_nil _
    · exact hstays
  | silence secs =>
    show Goes (if c.connected then _ else (c, [])).1 (if c.connected then _ else (c, [])).2
    rw [if_pos h]
    exact goes_fail quiet_nil _
  | beginClose =>
    refine .inr ⟨⟨rfl, rfl⟩, _, [], (List.append_nil _).symm, ?_, Nat.zero_le _⟩
    exact quiet_rejectPending _ _
  | request id request =>
    show Goes (if c.connected then _ else (c, [])).1 (if c.connected then _ else (c, [])).2
    rw [if_pos h]
    exact .inl ⟨h, quiet_nil⟩
  | abandoned id | forgotten id => exact .inl ⟨h, quiet_nil⟩

/-- A connection is lost once it is not connected. -/
theorem lost_after (inputs : List Input) {c : Connection} (h : c.connected = true) :
    ((machine schema).after c inputs).connected = true ∨ Lost ((machine schema).after c inputs) := by
  induction inputs generalizing c with
  | nil => exact .inl h
  | cons input inputs ih =>
    rcases @goes_step _ schema _ h input with ⟨hconnected, -⟩ | ⟨hlost, -⟩
    · exact ih hconnected
    · exact .inr (lost_run inputs hlost).1

/-! ### What the loss tells -/

/-- A request that waits is told the error of a loss. -/
theorem rejected {c : Connection} {id : String} {request : ℕ}
    (hwaits : c.pending.get? id = some ⟨request, false⟩) (error : LossError) :
    .result request (.lost error) ∈ (@Connection.rejectPending M c error).2 := by
  have hmem : (⟨request, false⟩ : Future) ∈ c.pending.values := Dict.mem_values.mpr ⟨id, hwaits⟩
  exact List.mem_map.mpr ⟨_, List.mem_filter.mpr ⟨hmem, rfl⟩, rfl⟩

/-- What is told to a request is an answer of the venue. -/
def Result.Answers : Result M → Prop
  | .response _ | .error _ => True
  | .lost _ => False

/-- A request that is not made is given nothing. -/
theorem idle_run {request : ℕ} (inputs : List Input) {c : Connection} (h : Idle request c.pending)
    (hrequest : ∀ input ∈ inputs, input.request? ≠ some request) :
    Idle request ((machine schema).after c inputs).pending ∧
      resultsOf request ((machine schema).told c inputs) = [] := by
  -- as a request that was given up after its one result
  have hstands : Stands request "" True 1 c.pending := .inr ⟨Nat.le_refl _, fun _ => rfl, h⟩
  rcases @stands_run _ schema _ _ _ _ _ inputs hstands hrequest fun _ _ _ _ _ _ => trivial with
    ⟨hzero, -⟩ | ⟨hle, -, hidle⟩
  · omega
  · exact ⟨hidle, List.length_eq_zero_iff.mp (by omega)⟩

/-- **One result.** A request that a connection takes is given one result at most, and one exactly by the
time the connection is lost or closed, unless its caller gave it up or its id was taken before that. -/
theorem answered_once {earlier later : List Input} {id : String} {request : ℕ}
    (hconnected : ((machine schema).after {} earlier).connected = true)
    (hfresh : ∀ input ∈ earlier ++ later, input.request? ≠ some request) :
    let run := earlier ++ .request id request :: later
    let results := resultsOf request ((machine schema).told {} run)
    results.length ≤ 1 ∧
      (((machine schema).after {} run).connected = false →
        (∀ before input after, later = before ++ input :: after → input.givesUp id = true →
          resultsOf request ((machine schema).told {} (earlier ++ .request id request :: before)) ≠ []) →
        results.length = 1) := by
  intro run results
  obtain ⟨hidle, hnothing⟩ := @idle_run _ schema _ earlier {} idle_empty fun input hinput =>
    hfresh input (List.mem_append_left _ hinput)
  have hstep : (machine schema).step ((machine schema).after {} earlier) (.request id request) =
      ({ (machine schema).after {} earlier with
        pending := ((machine schema).after {} earlier).pending.set id { request } }, []) :=
    if_pos hconnected
  -- the results so far are those told since the request was made
  have hsince : ∀ inputs, resultsOf request ((machine schema).told {} (earlier ++ .request id request ::
      inputs)) = resultsOf request ((machine schema).told
      { (machine schema).after {} earlier with
        pending := ((machine schema).after {} earlier).pending.set id { request } } inputs) := by
    intro inputs
    rw [Machine.told_append, resultsOf_append, hnothing, Machine.told_cons, hstep]
    rfl
  have hstands := @stands_run _ schema request id (∃ before input after,
      later = before ++ input :: after ∧ input.givesUp id = true ∧
      resultsOf request ((machine schema).told {} (earlier ++ .request id request :: before)) = []) 0
    { (machine schema).after {} earlier with
      pending := ((machine schema).after {} earlier).pending.set id { request } } later
    (.inl ⟨rfl, hidle.waits id⟩) (fun input hinput => hfresh input (List.mem_append_right _ hinput))
    fun before input after hsplit hgivesUp hnone => by
      rw [Nat.zero_add] at hnone
      exact ⟨before, input, after, hsplit, hgivesUp,
        (hsince before).trans (List.length_eq_zero_iff.mp hnone)⟩
  have hresults : results = _ := hsince later
  have hafter : (machine schema).after {} run = (machine schema).after
      { (machine schema).after {} earlier with
        pending := ((machine schema).after {} earlier).pending.set id { request } } later := by
    show (machine schema).after {} (earlier ++ _) = _
    rw [Machine.after_append, Machine.after_cons, hstep]
  rw [hresults, hafter]
  rw [Nat.zero_add] at hstands
  rcases hstands with ⟨hzero, hwaits⟩ | ⟨hle, hone, -⟩
  · refine ⟨by omega, fun hlost => ?_⟩
    have halive := @lost_after _ schema later
      { (machine schema).after {} earlier with
        pending := ((machine schema).after {} earlier).pending.set id { request } } hconnected
    rcases halive with hlive | hover
    · rw [hlive] at hlost
      cases hlost
    · have hget := (hwaits id).mpr rfl
      rw [hover.pending] at hget
      cases hget
  · refine ⟨hle, fun _ hkept => hone ?_⟩
    rintro ⟨before, input, after, hsplit, hgivesUp, hnone⟩
    exact hkept before input after hsplit hgivesUp hnone

/-- One request waits while another is answered and forgotten, and has its result when the connection is
closed. -/
def answeredThenClosed : List Input :=
  [.data [0, 0, 0, 10, 8, 50, 18, 3, 18, 1, 88, 26, 1, 55], .forgotten "7", .beginClose]

/-- Each of the two has one result: the first its answer, the second the loss. -/
theorem answered_once_closed :
    (resultsOf 0 ((machine refusalSchema).told {} (.request "7" 0 :: .request "8" 1 ::
        answeredThenClosed))).length = 1 ∧
      resultsOf 1 ((machine refusalSchema).told {} (.request "7" 0 :: .request "8" 1 ::
        answeredThenClosed)) = [.lost (.connection "connection closed")] := by
  have hfirst := (@answered_once _ refusalSchema [] (.request "8" 1 :: answeredThenClosed) "7" 0 rfl
    (by decide)).2 rfl
  refine ⟨hfirst fun before input after hsplit hgivesUp => ?_, rfl⟩
  -- only the request's own end comes under its id, after its answer
  rcases before with _ | ⟨first, _ | ⟨second, _ | ⟨third, before⟩⟩⟩
  · cases hsplit
    cases hgivesUp
  · cases hsplit
    cases hgivesUp
  · cases hsplit
    decide
  · simp only [answeredThenClosed, List.cons_append, List.cons.injEq] at hsplit
    obtain ⟨-, -, -, hrest⟩ := hsplit
    rcases before with _ | ⟨fourth, before⟩
    · cases hrest
      cases hgivesUp
    · simp at hrest

end Wire

end NautilusCtrader
