import NautilusCtrader.Common.Machine

/-!
# Taking turns at a resource

Tasks change one resource through requests that somebody else answers, and take turns at a lock of
it. A lock lets go by waking the task that waits longest, which takes it when it next runs: in
between, the lock is free and still waited for. A table holds the lock, and lets it go whenever the
resource is found closed and the lock free. As long as no lock is let go that tasks wait for, every
request is made with all earlier ones answered, and what the accepted ones leave is what they make of
the resource one after another.
-/

namespace Common

variable {σ γ ρ ε δ ν : Type}

/-! ## Turns -/

/-- What a task does when its turn comes. -/
inductive Turn (ρ : Type)
  /-- It asks for `request` and keeps the lock until it is answered. -/
  | asks (request : ρ)
  /-- The resource stands as `request` would have it. -/
  | stands (request : ρ)
  /-- It is refused at once. -/
  | refused
deriving DecidableEq, Repr

/-- The request a turn asks for. -/
def Turn.request? : Turn ρ → Option ρ
  | .asks request => some request
  | .stands _ | .refused => none

/-- A resource that commands change. A request states the value it asks for whole, and `edit` is what
it changes of the value it finds. -/
structure Resource (σ γ ρ ε δ ν : Type) where
  isOpen : σ → Bool
  turn : σ → γ → Turn ρ
  /-- An event or an answer is taken. -/
  take : σ → ε → σ
  /-- Anything else changes. -/
  change : σ → δ → σ
  value : σ → ν
  stated : ρ → ν
  edit : ρ → ν → ν
  asks_edit : ∀ {s command request}, turn s command = .asks request →
    stated request = edit request (value s)
  stands_edit : ∀ {s command request}, turn s command = .stands request →
    edit request (value s) = value s

/-- A lock: the task that holds it with its request, and those that wait, first come first. -/
structure Lock (γ ρ : Type) where
  holder : Option (ℕ × ρ) := none
  waiting : List (ℕ × γ) := []
deriving DecidableEq, Repr

/-- The resource, the lock the table holds for it, and those the table let go. -/
structure Turns (σ γ ρ : Type) where
  shared : σ
  table : Option (Lock γ ρ) := none
  dropped : List (Lock γ ρ) := []
  begun : ℕ := 0
deriving DecidableEq, Repr

/-- What happens. A lock is the table's, or the one at an index of those let go. -/
inductive Input (γ ε δ : Type)
  | call (command : γ)
  | wake (lock : Option ℕ)
  /-- The holder of the lock is answered: with an event if it is accepted. -/
  | answer (lock : Option ℕ) (accepted : Option ε)
  | event (event : ε)
  | change (change : δ)
deriving DecidableEq, Repr

/-- What is told of each task. -/
inductive Told (γ ρ : Type)
  | took (id : ℕ) (command : γ) (turn : Turn ρ)
  | accepted (id : ℕ)
  | refused (id : ℕ)
deriving DecidableEq, Repr

/-- The task a record is about. -/
def Told.id : Told γ ρ → ℕ
  | .took id _ _ | .accepted id | .refused id => id

namespace Turns

variable (r : Resource σ γ ρ ε δ ν) (s : Turns σ γ ρ)

def lock? : Option ℕ → Option (Lock γ ρ)
  | none => s.table
  | some i => s.dropped[i]?

def setLock (lock : Lock γ ρ) : Option ℕ → Turns σ γ ρ
  | none => { s with table := some lock }
  | some i => { s with dropped := s.dropped.set i lock }

/-- The table lets a free lock of a closed resource go. -/
def dropLock : Turns σ γ ρ :=
  match s.table with
  | none => s
  | some lock =>
    if lock.holder.isNone && !r.isOpen s.shared then
      { s with table := none, dropped := s.dropped ++ [lock] }
    else s

/-- A task takes the free lock. -/
def takeLock (lock : Lock γ ρ) (id : ℕ) (command : γ) : Lock γ ρ × List (Told γ ρ) :=
  let turn := r.turn s.shared command
  match turn with
  | .asks request => ({ lock with holder := some (id, request) }, [.took id command turn])
  | .stands _ | .refused => (lock, [.took id command turn])

/-- A task asks for the table's lock, which is made if there is none. -/
def call (command : γ) : Turns σ γ ρ × List (Told γ ρ) :=
  let lock := s.table.getD {}
  let s' := { s with begun := s.begun + 1 }
  if lock.holder.isNone && lock.waiting.isEmpty then
    let taken := s.takeLock r lock s.begun command
    (s'.setLock taken.1 none, taken.2)
  else (s'.setLock { lock with waiting := lock.waiting ++ [(s.begun, command)] } none, [])

/-- The task that waits longest for a free lock runs. -/
def wake (at? : Option ℕ) : Turns σ γ ρ × List (Told γ ρ) :=
  match s.lock? at? with
  | some ⟨none, (id, command) :: waiting⟩ =>
    let taken := s.takeLock r { waiting } id command
    (s.setLock taken.1 at?, taken.2)
  | _ => (s, [])

/-- The holder of a lock is answered and lets it go. -/
def answer (at? : Option ℕ) (accepted : Option ε) : Turns σ γ ρ × List (Told γ ρ) :=
  match s.lock? at? with
  | some ⟨some (id, _), waiting⟩ =>
    match accepted with
    | some event =>
      -- The table is gone through while the lock is held.
      let s := { s with shared := r.take s.shared event }.dropLock r
      (s.setLock { waiting } at?, [.accepted id])
    | none => (s.setLock { waiting } at?, [.refused id])
  | _ => (s, [])

/-- The resource with its locks as a machine. -/
def machine : Machine (Turns σ γ ρ) (Input γ ε δ) (Told γ ρ) where
  step s
    | .call command => s.call r command
    | .wake at? => s.wake r at?
    | .answer at? accepted => s.answer r at? accepted
    | .event event => ({ s with shared := r.take s.shared event }.dropLock r, [])
    | .change change => ({ s with shared := r.change s.shared change }, [])

/-! ## What is asked of a run -/

/-- The table lets no lock go that a task waits for, once `shared` is what the resource is. -/
def keepsWaited (shared : σ) : Bool :=
  match s.table with
  | none => true
  | some lock => lock.holder.isSome || r.isOpen shared || lock.waiting.isEmpty

/-- The condition on one step: an event leaves the resource open, or its lock held or waited for by
none. -/
def Keeps (s : Turns σ γ ρ) : Input γ ε δ → Prop
  | .event event => s.keepsWaited r (r.take s.shared event) = true
  | .answer _ (some event) => s.keepsWaited r (r.take s.shared event) = true
  | _ => True

instance (s : Turns σ γ ρ) (input : Input γ ε δ) : Decidable (Keeps r s input) := by
  unfold Keeps
  split <;> infer_instance

/-- An accepted request is accepted as asked, and nothing else changes the value. -/
def AsAsked (s : Turns σ γ ρ) : Input γ ε δ → Prop
  | .answer at? (some event) => ∀ id request waiting,
      s.lock? at? = some ⟨some (id, request), waiting⟩ →
        r.value (r.take s.shared event) = r.stated request
  | .event event => r.value (r.take s.shared event) = r.value s.shared
  | .change change => r.value (r.change s.shared change) = r.value s.shared
  | _ => True

/-! ## What a run tells -/

/-- A task's request is answered. -/
def Answered (told : List (Told γ ρ)) (id : ℕ) : Prop :=
  .accepted id ∈ told ∨ .refused id ∈ told

/-- Every request asked for is answered. -/
def AllAnswered (told : List (Told γ ρ)) : Prop :=
  ∀ id command request, .took id command (.asks request) ∈ told → Answered told id

/-- Whether a task's request is accepted. -/
def accepts (told : List (Told γ ρ)) (id : ℕ) : Bool :=
  told.any fun
    | .accepted accepted => accepted = id
    | _ => false

/-- The request of a task that took the lock, if it was accepted, or if the resource stood as it
would have it. -/
def acceptedOf (told : List (Told γ ρ)) : Told γ ρ → Option ρ
  | .took id _ (.asks request) => if accepts told id then some request else none
  | .took _ _ (.stands request) => some request
  | _ => none

/-- The requests accepted, in the order their tasks took the lock. -/
def accepted (told : List (Told γ ρ)) : List ρ := told.filterMap (acceptedOf told)

/-- What a list of requests makes of a value, one after another. -/
def edited (v : ν) (requests : List ρ) : ν := requests.foldl (fun v request => r.edit request v) v

/-- No update is lost in a run: every request is made with all earlier ones answered and `restates` the
resource as it is then; and where the accepted ones are accepted as asked, with nothing else changing
the value, the value ends as they make it one after another. -/
structure LosesNone (r : Resource σ γ ρ ε δ ν) (restates : σ → γ → ρ → Prop)
    (asAsked : Turns σ γ ρ → Input γ ε δ → Prop) (start : σ) (inputs : List (Input γ ε δ)) :
    Prop where
  restated : ∀ before input rest, inputs = before ++ input :: rest → ∀ id command request,
    .took id command (.asks request) ∈
        ((machine r).step ((machine r).after { shared := start } before) input).2 →
      AllAnswered ((machine r).told { shared := start } before) ∧
        restates ((machine r).after { shared := start } before).shared command request
  serial : (machine r).Always asAsked { shared := start } inputs →
    r.value ((machine r).after { shared := start } inputs).shared =
      edited r (r.value start) (accepted ((machine r).told { shared := start } inputs))

/-! ## What a step can do -/

variable {r} {s}

/-- The task that holds the table's lock, with its request. -/
def holder (s : Turns σ γ ρ) : Option (ℕ × ρ) := s.table.bind Lock.holder

/-- The tasks that wait for the table's lock. -/
def waiting (s : Turns σ γ ρ) : List (ℕ × γ) := (s.table.map Lock.waiting).getD []

/-- No lock let go is held or waited for. -/
def Idle (s : Turns σ γ ρ) : Prop := ∀ lock ∈ s.dropped, lock = {}

/-- What a step can do where no lock let go is in use. -/
inductive Moves (r : Resource σ γ ρ ε δ ν) (s s' : Turns σ γ ρ) (input : Input γ ε δ) :
    List (Told γ ρ) → Prop
  /-- No task takes the lock or is answered; one may begin to wait. -/
  | quiet (hvalue : AsAsked r s input → r.value s'.shared = r.value s.shared)
      (hholder : s'.holder = s.holder)
      (hwaiting : (s'.waiting = s.waiting ∧ s'.begun = s.begun) ∨
        ∃ command, s'.waiting = s.waiting ++ [(s.begun, command)] ∧ s'.begun = s.begun + 1) :
      Moves r s s' input []
  /-- A task takes the free lock: a new one, or the one that waits longest. -/
  | takes (id : ℕ) (command : γ) (hshared : s'.shared = s.shared) (hfree : s.holder = none)
      (hholder : s'.holder = (r.turn s.shared command).request?.map (id, ·))
      (hwaiting : (s.waiting = [] ∧ s'.waiting = [] ∧ id = s.begun ∧ s'.begun = s.begun + 1) ∨
        (s.waiting = (id, command) :: s'.waiting ∧ s'.begun = s.begun)) :
      Moves r s s' input [.took id command (r.turn s.shared command)]
  /-- The holder is answered. -/
  | accepted (id : ℕ) (request : ρ) (hheld : s.holder = some (id, request))
      (hvalue : AsAsked r s input → r.value s'.shared = r.stated request)
      (hholder : s'.holder = none) (hwaiting : s'.waiting = s.waiting) (hbegun : s'.begun = s.begun) :
      Moves r s s' input [.accepted id]
  | refused (id : ℕ) (request : ρ) (hheld : s.holder = some (id, request))
      (hshared : s'.shared = s.shared) (hholder : s'.holder = none)
      (hwaiting : s'.waiting = s.waiting) (hbegun : s'.begun = s.begun) :
      Moves r s s' input [.refused id]

/-- A free lock is taken, with the command's request if it has one. -/
theorem takeLock_eq (lock : Lock γ ρ) (id : ℕ) (command : γ) (hfree : lock.holder = none) :
    s.takeLock r lock id command =
      ({ lock with holder := (r.turn s.shared command).request?.map (id, ·) },
        [.took id command (r.turn s.shared command)]) := by
  unfold takeLock
  dsimp only
  cases r.turn s.shared command with
  | asks request => rfl
  | stands request =>
    dsimp only [Turn.request?, Option.map_none]
    rw [← hfree]
  | refused =>
    dsimp only [Turn.request?, Option.map_none]
    rw [← hfree]

/-- Nobody holds or waits for a lock that was let go. -/
theorem Idle.lock?_some (hidle : s.Idle) {i : ℕ} {lock : Lock γ ρ} (h : s.lock? (some i) = some lock) :
    lock = {} := hidle lock (List.mem_of_getElem? h)

/-- A drop that lets no lock go that tasks wait for. -/
theorem dropLock_spec (hidle : s.Idle) (hkeeps : s.keepsWaited r s.shared = true) :
    (s.dropLock r).shared = s.shared ∧ (s.dropLock r).holder = s.holder ∧
      (s.dropLock r).waiting = s.waiting ∧ (s.dropLock r).begun = s.begun ∧ (s.dropLock r).Idle := by
  unfold dropLock
  cases htable : s.table with
  | none => exact ⟨rfl, rfl, rfl, rfl, hidle⟩
  | some lock =>
    dsimp only
    split
    · rename_i hdrops
      rw [Bool.and_eq_true, Option.isNone_iff_eq_none, Bool.not_eq_true'] at hdrops
      obtain ⟨hfree, hclosed⟩ := hdrops
      unfold keepsWaited at hkeeps
      rw [htable] at hkeeps
      have hnone : lock.waiting = [] := by
        simpa [hfree, hclosed] using hkeeps
      have hlock : lock = {} := by
        obtain ⟨holder, waiting⟩ := lock
        rw [show holder = none from hfree, show waiting = [] from hnone]
      refine ⟨rfl, ?_, ?_, rfl, ?_⟩
      · unfold holder
        rw [htable]
        exact hfree.symm
      · unfold waiting
        rw [htable]
        exact hnone.symm
      · intro dropped hdropped
        rcases List.mem_append.mp hdropped with hold | hnew
        · exact hidle dropped hold
        · rw [List.mem_singleton.mp hnew]
          exact hlock
    · exact ⟨rfl, rfl, rfl, rfl, hidle⟩

/-- Nothing happens. -/
theorem moves_nothing (input : Input γ ε δ) : Moves r s s input [] :=
  .quiet (fun _ => rfl) rfl (.inl ⟨rfl, rfl⟩)

/-- A command is called: it takes the lock or waits. -/
theorem moves_call (command : γ) :
    Moves r s (s.call r command).1 (.call command) (s.call r command).2 := by
  have hholder : s.holder = (s.table.getD {}).holder := by
    unfold holder
    cases s.table <;> rfl
  have hwaiting : s.waiting = (s.table.getD {}).waiting := by
    unfold waiting
    cases s.table <;> rfl
  unfold call
  dsimp only
  split
  · rename_i hfree
    rw [Bool.and_eq_true, Option.isNone_iff_eq_none, List.isEmpty_iff] at hfree
    rw [takeLock_eq _ _ _ hfree.1]
    exact .takes s.begun command rfl (hholder.trans hfree.1) rfl
      (.inl ⟨hwaiting.trans hfree.2, hfree.2, rfl, rfl⟩)
  · refine .quiet (fun _ => rfl) hholder.symm (.inr ⟨command, ?_, rfl⟩)
    rw [hwaiting]
    rfl

/-- The command that waited longest takes the lock. -/
theorem moves_wake (hidle : s.Idle) (at? : Option ℕ) :
    Moves r s (s.wake r at?).1 (.wake at?) (s.wake r at?).2 ∧ (s.wake r at?).1.Idle := by
  unfold wake
  split
  · rename_i id command waiting hlock
    cases at? with
    | none =>
      have htable : s.table = some ⟨none, (id, command) :: waiting⟩ := hlock
      have hheld : s.holder = none := by
        unfold holder
        rw [htable]
        rfl
      have hwaiting : s.waiting = (id, command) :: waiting := by
        unfold Turns.waiting
        rw [htable]
        rfl
      rw [takeLock_eq _ _ _ rfl]
      exact ⟨.takes id command rfl hheld rfl (.inr ⟨hwaiting, rfl⟩), hidle⟩
    | some i => cases hidle.lock?_some hlock
  · exact ⟨moves_nothing _, hidle⟩

/-- The holder's request is answered, and the lock goes on. -/
theorem moves_answer (hidle : s.Idle) (at? : Option ℕ) (accepted : Option ε)
    (hkeeps : Keeps r s (.answer at? accepted : Input γ ε δ)) :
    Moves r s (s.answer r at? accepted).1 (.answer at? accepted) (s.answer r at? accepted).2 ∧
      (s.answer r at? accepted).1.Idle := by
  unfold answer
  split
  · rename_i id request waiting hlock
    cases at? with
    | none =>
      have htable : s.table = some ⟨some (id, request), waiting⟩ := hlock
      have hheld : s.holder = some (id, request) := by
        unfold holder
        rw [htable]
        rfl
      have hwaiting : waiting = s.waiting := by
        unfold Turns.waiting
        rw [htable]
        rfl
      cases accepted with
      | none => exact ⟨.refused id request hheld rfl rfl hwaiting rfl, hidle⟩
      | some event =>
        obtain ⟨hshared, -, -, hbegun, hidle'⟩ :=
          dropLock_spec (r := r) (s := { s with shared := r.take s.shared event }) hidle hkeeps
        refine ⟨.accepted id request hheld (fun hasked => ?_) rfl hwaiting hbegun, hidle'⟩
        exact (congrArg r.value hshared).trans (hasked id request waiting hlock)
    | some i => cases hidle.lock?_some hlock
  · exact ⟨moves_nothing _, hidle⟩

/-- A step that drops no lock tasks wait for does one of these, and every lock let go stays idle. -/
theorem step_moves (hidle : s.Idle) {input : Input γ ε δ} (hkeeps : Keeps r s input) :
    Moves r s ((machine r).step s input).1 input ((machine r).step s input).2 ∧
      ((machine r).step s input).1.Idle := by
  cases input with
  | call command =>
    refine ⟨moves_call command, ?_⟩
    show (s.call r command).1.Idle
    unfold call
    dsimp only
    split <;> exact hidle
  | wake at? => exact moves_wake hidle at?
  | answer at? accepted => exact moves_answer hidle at? accepted hkeeps
  | event event =>
    obtain ⟨hshared, hholder, hwaiting, hbegun, hidle'⟩ :=
      dropLock_spec (r := r) (s := { s with shared := r.take s.shared event }) hidle hkeeps
    refine ⟨.quiet (fun hasked => ?_) hholder (.inl ⟨hwaiting, hbegun⟩), hidle'⟩
    exact (congrArg r.value hshared).trans hasked
  | change change => exact ⟨.quiet (fun hasked => hasked) rfl (.inl ⟨rfl, rfl⟩), hidle⟩

/-! ## One request at a time -/

variable {told : List (Told γ ρ)}

/-- Nothing told is about a task. -/
def New (told : List (Told γ ρ)) (id : ℕ) : Prop := ∀ t ∈ told, t.id ≠ id

/-- All requests stay answered if those added are. -/
theorem AllAnswered.append (h : AllAnswered told) {more : List (Told γ ρ)}
    (hmore : ∀ id command request, .took id command (.asks request) ∈ more →
      Answered (told ++ more) id) : AllAnswered (told ++ more) := by
  intro id command request htook
  rcases List.mem_append.mp htook with hold | hnew
  · rcases h id command request hold with haccepted | hrefused
    · exact .inl (List.mem_append_left _ haccepted)
    · exact .inr (List.mem_append_left _ hrefused)
  · exact hmore id command request hnew

/-- What a run keeps of the order of the tasks: the one that holds the lock took it last, and every
request before its own is answered. -/
structure InTurn (told : List (Told γ ρ)) (s : Turns σ γ ρ) : Prop where
  idle : s.Idle
  below : ∀ t ∈ told, t.id < s.begun
  fresh : ∀ w ∈ s.waiting, w.1 < s.begun ∧ New told w.1
  distinct : (s.waiting.map Prod.fst).Nodup
  free : s.holder = none → AllAnswered told
  held : ∀ id request, s.holder = some (id, request) → ∃ earlier command,
    told = earlier ++ [.took id command (.asks request)] ∧ New earlier id ∧ AllAnswered earlier

/-- Nothing is told, and at most a command more waits. -/
theorem InTurn.quiet (h : InTurn told s) {s' : Turns σ γ ρ} (hidle : s'.Idle)
    (hholder : s'.holder = s.holder)
    (hwaiting : (s'.waiting = s.waiting ∧ s'.begun = s.begun) ∨
      ∃ command, s'.waiting = s.waiting ++ [(s.begun, command)] ∧ s'.begun = s.begun + 1) :
    InTurn told s' := by
  have hfree : s'.holder = none → AllAnswered told := by
    rw [hholder]
    exact h.free
  have hheld : ∀ id request, s'.holder = some (id, request) → ∃ earlier command,
      told = earlier ++ [.took id command (.asks request)] ∧ New earlier id ∧
        AllAnswered earlier := by
    rw [hholder]
    exact h.held
  rcases hwaiting with ⟨hwaiting, hbegun⟩ | ⟨command, hwaiting, hbegun⟩
  · refine ⟨hidle, ?_, ?_, ?_, hfree, hheld⟩
    · rw [hbegun]
      exact h.below
    · rw [hwaiting, hbegun]
      exact h.fresh
    · rw [hwaiting]
      exact h.distinct
  · refine ⟨hidle, ?_, ?_, ?_, hfree, hheld⟩
    · intro t ht
      have hbelow := h.below t ht
      omega
    · intro w hw
      rw [hwaiting] at hw
      rw [hbegun]
      rcases List.mem_append.mp hw with hold | hnew
      · obtain ⟨hlt, hnew⟩ := h.fresh w hold
        exact ⟨by omega, hnew⟩
      · rw [List.mem_singleton.mp hnew]
        refine ⟨Nat.lt_succ_self _, fun t ht => ?_⟩
        have hbelow := h.below t ht
        exact Nat.ne_of_lt hbelow
    · rw [hwaiting, List.map_append, List.nodup_append]
      refine ⟨h.distinct, by simp, fun id hid new hnew => ?_⟩
      obtain ⟨w, hw, rfl⟩ := List.mem_map.mp hid
      rw [show new = s.begun by simpa using hnew]
      exact Nat.ne_of_lt (h.fresh w hw).1

/-- A command takes its turn, after all those before it. -/
theorem InTurn.takes (h : InTurn told s) {s' : Turns σ γ ρ} (hidle : s'.Idle) {id : ℕ} {command : γ}
    {turn : Turn ρ} (hfree : s.holder = none) (hholder : s'.holder = turn.request?.map (id, ·))
    (hwaiting : (s.waiting = [] ∧ s'.waiting = [] ∧ id = s.begun ∧ s'.begun = s.begun + 1) ∨
      (s.waiting = (id, command) :: s'.waiting ∧ s'.begun = s.begun)) :
    InTurn (told ++ [.took id command turn]) s' ∧ New told id := by
  have hbegun : s.begun ≤ s'.begun := by
    rcases hwaiting with ⟨-, -, -, hbegun⟩ | ⟨-, hbegun⟩ <;> omega
  have hnew : id < s'.begun ∧ New told id := by
    -- the command comes now, or is the first of those that waited
    rcases hwaiting with ⟨-, -, rfl, hbegun⟩ | ⟨hwaits, hbegun⟩
    · refine ⟨by omega, fun t ht => Nat.ne_of_lt (h.below t ht)⟩
    · rw [hbegun]
      exact h.fresh (id, command) (hwaits ▸ List.mem_cons_self)
  have hrest : ∀ w ∈ s'.waiting, w ∈ s.waiting ∧ id ≠ w.1 := by
    intro w hw
    rcases hwaiting with ⟨-, hnone, -⟩ | ⟨hwaits, -⟩
    · rw [hnone] at hw
      cases hw
    · have hdistinct := h.distinct
      rw [hwaits, List.map_cons, List.nodup_cons] at hdistinct
      refine ⟨hwaits ▸ List.mem_cons_of_mem _ hw, fun heq => hdistinct.1 ?_⟩
      exact List.mem_map.mpr ⟨w, hw, heq.symm⟩
  have hanswered := h.free hfree
  refine ⟨⟨hidle, ?_, ?_, ?_, ?_, ?_⟩, hnew.2⟩
  · intro t ht
    rcases List.mem_append.mp ht with hold | htook
    · have hbelow := h.below t hold
      omega
    · rw [List.mem_singleton.mp htook]
      exact hnew.1
  · intro w hw
    obtain ⟨hmem, hne⟩ := hrest w hw
    obtain ⟨hlt, hfresh⟩ := h.fresh w hmem
    refine ⟨by omega, fun t ht => ?_⟩
    rcases List.mem_append.mp ht with hold | htook
    · exact hfresh t hold
    · rw [List.mem_singleton.mp htook]
      exact hne
  · rcases hwaiting with ⟨-, hnone, -⟩ | ⟨hwaits, -⟩
    · rw [hnone]
      exact List.nodup_nil
    · have hdistinct := h.distinct
      rw [hwaits, List.map_cons, List.nodup_cons] at hdistinct
      exact hdistinct.2
  · intro hnone
    -- with the lock free, all that was asked before has its answer
    refine hanswered.append fun id' command' request htook => ?_
    have heq := List.mem_singleton.mp htook
    injection heq with _ _ hturn
    rw [hholder, ← hturn] at hnone
    cases hnone
  · intro id' request hheld
    rw [hholder] at hheld
    cases turn with
    | asks asked =>
      obtain ⟨rfl, rfl⟩ : id = id' ∧ asked = request := by simpa [Turn.request?] using hheld
      exact ⟨told, command, rfl, hnew.2, hanswered⟩
    | stands asked => cases hheld
    | refused => cases hheld

/-- The holder's request is answered. -/
theorem InTurn.answers (h : InTurn told s) {s' : Turns σ γ ρ} (hidle : s'.Idle) {id : ℕ}
    {request : ρ} (hheld : s.holder = some (id, request)) (hholder : s'.holder = none)
    (hwaiting : s'.waiting = s.waiting) (hbegun : s'.begun = s.begun) {answer : Told γ ρ}
    (hanswer : answer = .accepted id ∨ answer = .refused id) : InTurn (told ++ [answer]) s' := by
  obtain ⟨earlier, command, htold, hnew, hanswered⟩ := h.held id request hheld
  have htook : .took id command (.asks request) ∈ told := by
    rw [htold]
    exact List.mem_append_right _ List.mem_cons_self
  have hid : answer.id = id := by rcases hanswer with rfl | rfl <;> rfl
  refine ⟨hidle, ?_, ?_, ?_, fun _ => ?_, ?_⟩
  · intro t ht
    rw [hbegun]
    rcases List.mem_append.mp ht with hold | hlast
    · exact h.below t hold
    · rw [List.mem_singleton.mp hlast, hid]
      exact h.below _ htook
  · intro w hw
    rw [hwaiting] at hw
    obtain ⟨hlt, hfresh⟩ := h.fresh w hw
    refine ⟨hbegun ▸ hlt, fun t ht => ?_⟩
    rcases List.mem_append.mp ht with hold | hlast
    · exact hfresh t hold
    · rw [List.mem_singleton.mp hlast, hid]
      exact hfresh _ htook
  · rw [hwaiting]
    exact h.distinct
  · -- The requests before the one answered are, and it is now.
    rw [htold, List.append_assoc]
    refine hanswered.append fun id' command' request' htook' => ?_
    have hsame : id' = id := by
      rcases hanswer with rfl | rfl
      · simp only [List.cons_append, List.nil_append, List.mem_cons, List.not_mem_nil, or_false,
          reduceCtorEq] at htook'
        exact (Told.took.inj htook').1
      · simp only [List.cons_append, List.nil_append, List.mem_cons, List.not_mem_nil, or_false,
          reduceCtorEq] at htook'
        exact (Told.took.inj htook').1
    rw [hsame]
    rcases hanswer with rfl | rfl
    · exact .inl (by simp)
    · exact .inr (by simp)
  · intro id' request' hheld'
    rw [hholder] at hheld'
    cases hheld'

/-- Every step keeps the turns in order. -/
theorem InTurn.step (h : InTurn told s) {input : Input γ ε δ} (hkeeps : Keeps r s input) :
    InTurn (told ++ ((machine r).step s input).2) ((machine r).step s input).1 := by
  obtain ⟨hmoves, hidle⟩ := step_moves h.idle hkeeps
  generalize ((machine r).step s input).1 = s' at hmoves hidle ⊢
  generalize ((machine r).step s input).2 = more at hmoves ⊢
  cases hmoves with
  | quiet _ hholder hwaiting =>
    rw [List.append_nil]
    exact h.quiet hidle hholder hwaiting
  | takes id command _ hfree hholder hwaiting => exact (h.takes hidle hfree hholder hwaiting).1
  | accepted id request hheld _ hholder hwaiting hbegun =>
    exact h.answers hidle hheld hholder hwaiting hbegun (.inl rfl)
  | refused id request hheld _ hholder hwaiting hbegun =>
    exact h.answers hidle hheld hholder hwaiting hbegun (.inr rfl)

/-- Nothing is under way at the start. -/
theorem inTurn_start (shared : σ) : InTurn ([] : List (Told γ ρ)) ({ shared } : Turns σ γ ρ) where
  idle := fun lock hlock => by cases hlock
  below := fun t ht => by cases ht
  fresh := fun w hw => by cases hw
  distinct := List.nodup_nil
  free := fun _ id command request htook => by cases htook
  held := fun id request hheld => by cases hheld

/-- A task takes the lock with every request before it answered, and does what its command makes of
the resource as it is then. -/
theorem takes_alone (shared : σ) {before : List (Input γ ε δ)} {input : Input γ ε δ}
    (hbefore : (machine r).Always (Keeps r) { shared } before)
    (hkeeps : Keeps r ((machine r).after { shared } before) input) {id : ℕ} {command : γ}
    {turn : Turn ρ}
    (htook : .took id command turn ∈
      ((machine r).step ((machine r).after { shared } before) input).2) :
    turn = r.turn ((machine r).after { shared } before).shared command ∧
      AllAnswered ((machine r).told { shared } before) := by
  have hturn : InTurn ([] ++ (machine r).told { shared } before)
      ((machine r).after { shared } before) :=
    Machine.told_invariant_of_always (fun told s input h hkeeps => h.step hkeeps)
      (inTurn_start shared) hbefore
  rw [List.nil_append] at hturn
  obtain ⟨hmoves, -⟩ := step_moves hturn.idle hkeeps
  generalize ((machine r).step ((machine r).after { shared } before) input).1 = s' at hmoves
  generalize ((machine r).step ((machine r).after { shared } before) input).2 = more
    at hmoves htook
  cases hmoves with
  | quiet => cases htook
  | takes id' command' _ hfree =>
    obtain ⟨rfl, rfl, rfl⟩ := Told.took.inj (List.mem_singleton.mp htook)
    exact ⟨rfl, hturn.free hfree⟩
  | accepted => cases List.mem_singleton.mp htook
  | refused => cases List.mem_singleton.mp htook

/-! ## What the accepted requests make of the value -/

/-- A command is accepted in one part or in the other. -/
theorem accepts_append (told more : List (Told γ ρ)) (id : ℕ) :
    accepts (told ++ more) id = (accepts told id || accepts more id) := List.any_append

/-- A command that has not taken its turn is not accepted. -/
theorem New.not_accepts {id : ℕ} (h : New told id) : accepts told id = false := by
  unfold accepts
  rw [List.any_eq_false]
  intro t ht
  cases t with
  | accepted accepted =>
    have hne : accepted ≠ id := h _ ht
    simpa using hne
  | took id command turn => simp
  | refused id => simp

/-- Records that accept none of a list's tasks leave what is accepted of it. -/
theorem acceptedOf_append {more : List (Told γ ρ)}
    (hmore : ∀ t ∈ told, accepts more t.id = false) {t : Told γ ρ} (ht : t ∈ told) :
    acceptedOf (told ++ more) t = acceptedOf told t := by
  cases t with
  | took id command turn =>
    cases turn with
    | asks request =>
      have hnone : accepts more id = false := hmore _ ht
      simp only [acceptedOf, accepts_append, hnone, Bool.or_false]
    | stands request => rfl
    | refused => rfl
  | accepted id => rfl
  | refused id => rfl

/-- The requests accepted so far stay accepted. -/
theorem accepted_append {more : List (Told γ ρ)}
    (hmore : ∀ t ∈ told, accepts more t.id = false) :
    accepted (told ++ more) = accepted told ++ more.filterMap (acceptedOf (told ++ more)) := by
  unfold accepted
  rw [List.filterMap_append]
  congr 1
  exact List.filterMap_congr fun t ht => acceptedOf_append hmore ht

/-- A task that takes the lock has its request accepted only if the resource stands so. -/
theorem accepted_took {id : ℕ} (h : New told id) (command : γ) (turn : Turn ρ) :
    accepted (told ++ [.took id command turn]) = accepted told ++
      match turn with
      | .stands request => [request]
      | .asks _ | .refused => [] := by
  have hnone : ∀ id', accepts ([.took id command turn] : List (Told γ ρ)) id' = false :=
    fun _ => rfl
  rw [accepted_append fun t _ => hnone t.id]
  cases turn with
  | asks request =>
    have hnew : accepts (told ++ [.took id command (.asks request)]) id = false := by
      rw [accepts_append, h.not_accepts]
      rfl
    simp only [List.filterMap_cons, acceptedOf, hnew, List.filterMap_nil]
    rfl
  | stands request => rfl
  | refused => rfl

/-- The request of the task that took the lock last is accepted last. -/
theorem accepted_accepted {earlier : List (Told γ ρ)} {id : ℕ} {command : γ} {request : ρ}
    (h : New earlier id) :
    accepted (earlier ++ [.took id command (.asks request)] ++ [.accepted id]) =
      accepted earlier ++ [request] := by
  have hmore : ∀ t ∈ earlier,
      accepts ([.took id command (.asks request), .accepted id] : List (Told γ ρ)) t.id = false := by
    intro t ht
    simpa [accepts] using (h t ht).symm
  have haccepts : accepts (earlier ++ [.took id command (.asks request), .accepted id]) id = true := by
    rw [accepts_append]
    simp [accepts]
  rw [List.append_assoc]
  show accepted (earlier ++ [.took id command (.asks request), .accepted id]) = _
  rw [accepted_append hmore]
  simp only [List.filterMap_cons, acceptedOf, haccepts, List.filterMap_nil]
  rfl

/-- A refusal accepts nothing. -/
theorem accepted_refused (id : ℕ) : accepted (told ++ [.refused id]) = accepted told := by
  have hnone : ∀ id', accepts ([.refused id] : List (Told γ ρ)) id' = false := fun _ => rfl
  rw [accepted_append fun t _ => hnone t.id]
  exact List.append_nil _

/-- The value is what the accepted requests made of `start`, and a request that is out states what it
would make of it. -/
structure Serial (r : Resource σ γ ρ ε δ ν) (start : ν) (told : List (Told γ ρ)) (s : Turns σ γ ρ) :
    Prop where
  inTurn : InTurn told s
  value : r.value s.shared = edited r start (accepted told)
  stated : ∀ id request, s.holder = some (id, request) →
    r.stated request = r.edit request (r.value s.shared)

/-- Requests edit a value one after the other. -/
theorem edited_append (v : ν) (requests more : List ρ) :
    edited r v (requests ++ more) = edited r (edited r v requests) more := List.foldl_append

/-- Every step keeps the value that of the requests accepted, in their order. -/
theorem Serial.step {start : ν} (h : Serial r start told s) {input : Input γ ε δ}
    (hkeeps : Keeps r s input) (hasked : AsAsked r s input) :
    Serial r start (told ++ ((machine r).step s input).2) ((machine r).step s input).1 := by
  have hturn := h.inTurn.step hkeeps
  -- what a step can do to the value and to the lock
  obtain ⟨hmoves, hidle⟩ := step_moves h.inTurn.idle hkeeps
  generalize ((machine r).step s input).1 = s' at hmoves hidle hturn ⊢
  generalize ((machine r).step s input).2 = more at hmoves hturn ⊢
  refine ⟨hturn, ?_, ?_⟩
  · cases hmoves with
    | quiet hvalue =>
      rw [List.append_nil, hvalue hasked]
      exact h.value
    | takes id command hshared hfree hholder hwaiting =>
      have hnew : New told id := (h.inTurn.takes hidle hfree hholder hwaiting).2
      rw [hshared, accepted_took hnew, edited_append, ← h.value]
      cases hcase : r.turn s.shared command with
      | asks request => rfl
      | stands request => exact (r.stands_edit hcase).symm
      | refused => rfl
    | accepted id request hheld hvalue =>
      -- the accepted request is the last that was taken, so it comes last in their order
      obtain ⟨earlier, command, rfl, hnew, -⟩ := h.inTurn.held id request hheld
      have htook : accepted (earlier ++ [.took id command (.asks request)]) = accepted earlier := by
        rw [accepted_took hnew]
        exact List.append_nil _
      rw [hvalue hasked, accepted_accepted hnew, edited_append, h.stated id request hheld, h.value,
        htook]
      rfl
    | refused id request _ hshared =>
      rw [hshared, accepted_refused]
      exact h.value
  · intro id' request' hheld'
    cases hmoves with
    | quiet hvalue hholder =>
      rw [hholder] at hheld'
      rw [hvalue hasked]
      exact h.stated id' request' hheld'
    | takes id command hshared hfree hholder =>
      rw [hholder] at hheld'
      rw [hshared]
      cases hcase : r.turn s.shared command with
      | asks request =>
        rw [hcase] at hheld'
        obtain ⟨rfl, rfl⟩ : id = id' ∧ request = request' := by
          simpa [Turn.request?] using hheld'
        exact r.asks_edit hcase
      | stands request =>
        rw [hcase] at hheld'
        cases hheld'
      | refused =>
        rw [hcase] at hheld'
        cases hheld'
    | accepted id request _ _ hholder =>
      rw [hholder] at hheld'
      cases hheld'
    | refused id request _ _ hholder =>
      rw [hholder] at hheld'
      cases hheld'

/-- Where every accepted request is accepted as asked and nothing else changes the value, it ends as
the accepted requests make it one after another. -/
theorem value_serial (shared : σ) {inputs : List (Input γ ε δ)}
    (hkeeps : (machine r).Always (Keeps r) { shared } inputs)
    (hasked : (machine r).Always (AsAsked r) { shared } inputs) :
    r.value ((machine r).after { shared } inputs).shared =
      edited r (r.value shared) (accepted ((machine r).told { shared } inputs)) := by
  have hstart : Serial r (r.value shared) [] ({ shared } : Turns σ γ ρ) :=
    ⟨inTurn_start shared, rfl, fun id request hheld => by cases hheld⟩
  have hserial : Serial r (r.value shared) ([] ++ (machine r).told { shared } inputs)
      ((machine r).after { shared } inputs) :=
    Machine.told_invariant_of_always (fun told s input h hcond => h.step hcond.1 hcond.2) hstart
      (hkeeps.and hasked)
  rw [List.nil_append] at hserial
  exact hserial.value

/-- Where requests restate what their commands ask for, a run loses none of them. -/
theorem losesNone {restates : σ → γ → ρ → Prop} {asAsked : Turns σ γ ρ → Input γ ε δ → Prop}
    (hrestates : ∀ {s command request}, r.turn s command = .asks request → restates s command request)
    (hasAsked : ∀ s input, asAsked s input → AsAsked r s input) (start : σ)
    {inputs : List (Input γ ε δ)}
    (hkeeps : (machine r).Always (Keeps r) { shared := start } inputs) :
    LosesNone r restates asAsked start inputs where
  restated := by
    rintro before input rest rfl id command request htook
    rw [Machine.always_append] at hkeeps
    obtain ⟨hturn, hanswered⟩ := takes_alone start hkeeps.1 hkeeps.2.1 htook
    exact ⟨hanswered, hrestates hturn.symm⟩
  serial := fun hasked => value_serial start hkeeps (hasked.mono hasAsked)

end Turns

end Common
