import NautilusCtrader.Bars.PagingEnds
import NautilusCtrader.Bars.Requests
import NautilusCtrader.Common.Fair

/-!
# Every request is answered once

A request is unanswered until its task's handler takes it or the task's callback finds it still there, so
exactly one of the two answers. A handler that has taken its request either awaits another page or ends
with one answer, however its call to the venue ended, and paging back ends whatever the venue serves.
-/

namespace NautilusCtrader

open Common Instruments Bars

namespace Requests

/-! ## Responses -/

/-- Whether it is the response to a request. -/
def Told.answers (id : ℕ) : Told → Bool
  | .published _ => false
  | .response responseId _ _ => responseId = id

/-- The number of responses to a request. -/
def responses (id : ℕ) (told : List Told) : ℕ := told.countP (Told.answers id)

/-- Responses are counted one after the other. -/
@[simp] theorem responses_append (id : ℕ) (told more : List Told) :
    responses id (told ++ more) = responses id told + responses id more :=
  List.countP_append

/-- A response counts for its own request. -/
theorem responses_response (id responseId : ℕ) (dataType : DataType) (data : Data) :
    responses id [.response responseId dataType data] = if responseId = id then 1 else 0 := by
  simp [responses, List.countP_cons, Told.answers]

/-- What is published is no response. -/
theorem responses_requestFailed (id : ℕ) (request : RequestData) (dataType : DataType)
    (reason : String) :
    responses id (requestFailed request dataType reason) = if request.id = id then 1 else 0 := by
  simp [requestFailed, responses, List.countP_cons, Told.answers]

/-! ## Handlers -/

/-- A handler goes on to await what `Next` allows and tells nothing, or it ends with one answer. -/
inductive Handled (request : RequestData) (Next : Reading → Prop) : Stage × List Told → Prop
  | waits (reading : Reading) (hnext : Next reading) : Handled request Next (.reading reading, [])
  | answers (cancelled : Bool) (told : List Told)
      (hone : ∀ id, responses id told = if request.id = id then 1 else 0) :
    Handled request Next (.ended cancelled, told)

section Handlers

variable {settings : Settings} {client : DataClient} {world : World} {request : RequestData}
  {Next : Reading → Prop}

/-- A request that fails gets the response that says so. -/
theorem Handled.failed (cancelled : Bool) (dataType : DataType) (reason : String) :
    Handled request Next (.ended cancelled, requestFailed request dataType reason) :=
  .answers cancelled _ fun id => responses_requestFailed id request dataType reason

/-- A request that is answered gets its data. -/
theorem Handled.responded (dataType : DataType) (data : Data) :
    Handled request Next (.ended false, [.response request.id dataType data]) :=
  .answers false _ fun id => responses_response id request.id dataType data

/-- A read of bars that raises answers its request. -/
theorem barsRaised_handled (bars : RequestBars) (connection : ℕ) (exception : Exception) :
    Handled request Next (barsRaised client request bars connection exception) :=
  .failed false _ _

/-- A read of bars asks for a page or answers its request. -/
theorem getTrendbars_handled {reading : Reading} (hnext : Next reading) :
    Handled request Next (getTrendbars client world request reading) := by
  unfold getTrendbars
  split
  · exact barsRaised_handled _ _ _
  · split
    · exact barsRaised_handled _ _ _
    · exact .waits reading hnext

/-- A reading that goes on does so from the page that was served. -/
theorem pageServed_handled (reading : Reading) (response : ProtoOAGetTrendbarsRes) :
    Handled request (fun next => ∃ page,
      next = { reading with state := reading.paging.turn reading.state page } ∧
        reading.paging.stops page (reading.paging.turn reading.state page) = false)
      (pageServed settings client world request reading response) := by
  unfold pageServed
  dsimp only
  split
  case isTrue =>
    split
    · exact barsRaised_handled _ _ _
    · split
      · exact barsRaised_handled _ _ _
      · exact .responded _ _
  case isFalse hgoes =>
    exact getTrendbars_handled ⟨_, rfl, Bool.eq_false_of_not_eq_true hgoes⟩

/-- A read of bars goes on with the page it waited for, or answers its request. -/
theorem resumeBars_handled (settings : Settings) (client : DataClient) (world : World)
    (request : RequestData) (reading : Reading) (outcome : Outcome) :
    Handled request (fun next => ∃ page,
      next = { reading with state := reading.paging.turn reading.state page } ∧
        reading.paging.stops page (reading.paging.turn reading.state page) = false)
      (resumeBars settings client world request reading outcome) := by
  cases outcome with
  | served response => exact pageServed_handled reading response
  | raised exception => exact barsRaised_handled _ _ _
  | cancelled => exact .failed true _ _

/-- A request for bars begins with its first page, or is answered. -/
theorem requestBars_handled (bars : RequestBars) :
    Handled request (fun next => next.state = next.paging.initial)
      (requestBars settings client world request bars) := by
  unfold requestBars
  dsimp only
  split
  · exact .failed false _ _
  · split
    · exact .failed false _ _
    · split
      · exact .failed false _ _
      · exact getTrendbars_handled rfl

/-- A request is answered or begins to read. -/
theorem handle_handled (settings : Settings) (client : DataClient) (world : World)
    (request : RequestData) :
    Handled request (fun next => next.state = next.paging.initial)
      (handle settings client world request) := by
  unfold handle
  split
  · exact requestBars_handled _
  · split
    · exact .failed false _ _
    · exact .responded _ _
  · exact .responded _ _
  · exact .failed false _ _

end Handlers

/-! ## Where a request's answer stands -/

/-- How many answers there are at a stage of the task, and whether the request is still unanswered. -/
def Stage.Stands (unanswered : Bool) (answers : ℕ) : Stage → Prop
  | .created _ => unanswered = true ∧ answers = 0
  | .reading r => unanswered = false ∧ answers = 0 ∧ r.paging.Low r.state
  -- The handler has answered, or the callback is to answer.
  | .ended cancelled =>
    unanswered = false ∧ answers = 1 ∨ cancelled = true ∧ unanswered = true ∧ answers = 0
  | .finished => answers = 1

/-- How far a task is from its end. -/
def Stage.rank : Stage → ℕ ×ₗ (ℕ ×ₗ ℕ ×ₗ ℕ)
  | .created _ => toLex (3, toLex (0, toLex (0, 0)))
  | .reading r => toLex (2, r.paging.rank r.state)
  | .ended _ => toLex (1, toLex (0, toLex (0, 0)))
  | .finished => toLex (0, toLex (0, toLex (0, 0)))

/-- A later stage ranks lower, whatever is left of its pages. -/
theorem Stage.rank_lt_of_stage {stage stage' : Stage}
    (h : (ofLex stage.rank).1 < (ofLex stage'.rank).1) : stage.rank < stage'.rank :=
  Prod.Lex.lt_iff.mpr (.inl h)

/-- What is unanswered is filed under its own id. -/
def Filed (unanswered : Dict ℕ RequestData) : Prop :=
  ∀ id request, unanswered.get? id = some request → request.id = id

section Turns

variable {settings : Settings} {client : DataClient} {world : World} {request : RequestData}
  {outcome : Outcome} {stage : Stage} {id answers : ℕ}

/-- The requests left are filed under their ids. -/
theorem Filed.erase {unanswered : Dict ℕ RequestData} (h : Filed unanswered) (id : ℕ) :
    Filed (unanswered.erase id) :=
  Dict.forall_erase h id

/-- A request that is filed is filed under its id. -/
theorem Filed.set {unanswered : Dict ℕ RequestData} (h : Filed unanswered) (request : RequestData) :
    Filed (unanswered.set request.id request) :=
  Dict.forall_set h rfl

/-- A callback answers nothing, or the request it finds unanswered. -/
theorem onRequestDone_cases (client : DataClient) (requestId : ℕ) (cancelled : Bool) :
    (onRequestDone client requestId cancelled = (client.unanswered, []) ∧
        (cancelled = true → client.unanswered.get? requestId = none)) ∨
      ∃ request, client.unanswered.get? requestId = some request ∧ cancelled = true ∧
        onRequestDone client requestId cancelled = (client.unanswered.erase requestId,
          requestFailed request (answerDataType request) "connection closed") := by
  unfold onRequestDone
  cases cancelled with
  | false => exact .inl ⟨rfl, nofun⟩
  | true =>
    cases hfound : client.unanswered.get? requestId with
    | none => exact .inl ⟨rfl, fun _ => rfl⟩
    | some request => exact .inr ⟨request, rfl, rfl, rfl⟩

/-- A turn of a task keeps requests filed under their ids. -/
theorem taskTurn_filed (hfiled : Filed client.unanswered) :
    Filed (taskTurn settings client world request outcome stage).2.1 := by
  cases stage with
  | created cancelled =>
    cases cancelled with
    | true => exact hfiled
    | false => exact hfiled.erase request.id
  | reading reading => exact hfiled
  | ended cancelled =>
    show Filed (onRequestDone client request.id cancelled).1
    obtain ⟨hdone, -⟩ | ⟨found, -, -, hdone⟩ := onRequestDone_cases client request.id cancelled
    · rw [hdone]
      exact hfiled
    · rw [hdone]
      exact hfiled.erase request.id
  | finished => exact hfiled

/-- A task answers its own request alone. -/
theorem taskTurn_other (settings : Settings) (world : World) (outcome : Outcome) (stage : Stage)
    (hfiled : Filed client.unanswered) (hne : request.id ≠ id) :
    (taskTurn settings client world request outcome stage).2.1.get? id = client.unanswered.get? id ∧
      responses id (taskTurn settings client world request outcome stage).2.2 = 0 := by
  have herased : (client.unanswered.erase request.id).get? id = client.unanswered.get? id := by
    rw [Dict.get?_erase, if_neg hne.symm]
  have hhandled {Next : Reading → Prop} {out : Stage × List Told} (h : Handled request Next out) :
      responses id out.2 = 0 := by
    cases h with
    | waits => rfl
    | answers cancelled told hone => exact (hone id).trans (if_neg hne)
  cases stage with
  | created cancelled =>
    cases cancelled with
    | true => exact ⟨rfl, rfl⟩
    | false => exact ⟨herased, hhandled (handle_handled settings client world request)⟩
  | reading reading =>
    exact ⟨rfl, hhandled (resumeBars_handled settings client world request reading outcome)⟩
  | ended cancelled =>
    show (onRequestDone client request.id cancelled).1.get? id = _ ∧
      responses id (onRequestDone client request.id cancelled).2 = 0
    obtain ⟨hdone, -⟩ | ⟨found, hfound, -, hdone⟩ := onRequestDone_cases client request.id cancelled
    · rw [hdone]
      exact ⟨rfl, rfl⟩
    · -- what the callback finds is filed under its own id
      rw [hdone, responses_requestFailed, hfiled _ found hfound]
      exact ⟨herased, if_neg hne⟩
  | finished => exact ⟨rfl, rfl⟩

/-- A turn of a request's own task leaves the answer standing as the stage it leads to says, and leads
nearer to the end. -/
theorem taskTurn_stands (settings : Settings) (world : World) (outcome : Outcome)
    (hfiled : Filed client.unanswered)
    (h : stage.Stands (client.unanswered.get? request.id).isSome answers) :
    let out := taskTurn settings client world request outcome stage
    out.1.Stands (out.2.1.get? request.id).isSome (answers + responses request.id out.2.2) ∧
      (stage = .finished ∧ out.1 = .finished ∨ out.1.rank < stage.rank) := by
  cases stage with
  | created cancelled =>
    obtain ⟨hunanswered, rfl⟩ := h
    cases cancelled with
    | true => exact ⟨.inr ⟨rfl, hunanswered, rfl⟩, .inr (Stage.rank_lt_of_stage (by decide : 1 < 3))⟩
    | false =>
      -- the handler takes the request, so from here on the callback finds nothing
      have hhandled := handle_handled settings client world request
      dsimp only [taskTurn]
      rw [Dict.get?_erase_self, Nat.zero_add]
      generalize handle settings client world request = out at hhandled
      cases hhandled with
      | waits reading hnext =>
        refine ⟨⟨rfl, rfl, ?_⟩, .inr (Stage.rank_lt_of_stage (Nat.lt_succ_self 2))⟩
        rw [hnext]
        exact Paging.low_initial reading.paging
      | answers cancelled told hone =>
        refine ⟨.inl ⟨rfl, ?_⟩, .inr (Stage.rank_lt_of_stage (by decide : 1 < 3))⟩
        rw [hone, if_pos rfl]
  | reading reading =>
    obtain ⟨hunanswered, rfl, hlow⟩ := h
    have hhandled := resumeBars_handled settings client world request reading outcome
    dsimp only [taskTurn]
    rw [hunanswered, Nat.zero_add]
    generalize resumeBars settings client world request reading outcome = out at hhandled
    cases hhandled with
    | waits next hnext =>
      -- the stage stays, and paging is nearer to its end
      obtain ⟨page, rfl, hgoes⟩ := hnext
      refine ⟨⟨rfl, rfl, hlow.turn page⟩, .inr ?_⟩
      exact Prod.Lex.lt_iff.mpr (.inr ⟨rfl, Paging.turn_lowers hlow hgoes⟩)
    | answers cancelled told hone =>
      refine ⟨.inl ⟨rfl, ?_⟩, .inr (Stage.rank_lt_of_stage (Nat.lt_succ_self 1))⟩
      rw [hone, if_pos rfl]
  | ended cancelled =>
    refine ⟨?_, .inr (Stage.rank_lt_of_stage (by decide : 0 < 1))⟩
    show answers + responses request.id (onRequestDone client request.id cancelled).2 = 1
    obtain ⟨hdone, hnone⟩ | ⟨found, hfound, rfl, hdone⟩ :=
      onRequestDone_cases client request.id cancelled
    · rw [hdone]
      -- a callback that answers nothing comes after a handler that has answered
      rcases h with ⟨-, rfl⟩ | ⟨rfl, hunanswered, -⟩
      · rfl
      · rw [hnone rfl] at hunanswered
        exact nomatch hunanswered
    · rw [hdone, responses_requestFailed, hfiled _ found hfound, if_pos rfl]
      rcases h with ⟨hanswered, -⟩ | ⟨-, -, rfl⟩
      · rw [hfound] at hanswered
        exact nomatch hanswered
      · rfl
  | finished => exact ⟨h, .inl ⟨rfl, rfl⟩⟩

end Turns

/-! ## The client -/

/-- Requests are filed under their ids, and tasks are numbered once. -/
structure Orderly (client : DataClient) : Prop where
  filed : Filed client.unanswered
  numbered : ∀ task t, client.tasks.get? task = some t → task < client.nextTask

/-- Nothing of a request changes. -/
structure Aside (id : ℕ) (client client' : DataClient) : Prop where
  orderly : Orderly client'
  unanswered : client'.unanswered.get? id = client.unanswered.get? id
  tasks : ∀ task t, t.request.id = id →
    (client'.tasks.get? task = some t ↔ client.tasks.get? task = some t)

/-- A request is not known to the client. -/
structure Unasked (id : ℕ) (client : DataClient) : Prop where
  orderly : Orderly client
  unanswered : client.unanswered.get? id = none
  others : ∀ task t, client.tasks.get? task = some t → t.request.id ≠ id

/-- A request has one task, and is answered as that task's stage says. -/
structure Tracked (id task answers : ℕ) (client : DataClient) : Prop where
  orderly : Orderly client
  stands : ∃ t, client.tasks.get? task = some t ∧ t.request.id = id ∧
    t.stage.Stands (client.unanswered.get? id).isSome answers
  others : ∀ other t, client.tasks.get? other = some t → t.request.id = id → other = task

/-- The task an action is about. -/
def Action.task? : Action → Option ℕ
  | .turn task _ _ => some task
  | .cancel task => some task
  | _ => none

/-- How far a task is from its end. -/
def DataClient.rank (client : DataClient) (task : ℕ) : ℕ ×ₗ (ℕ ×ₗ ℕ ×ₗ ℕ) :=
  ((client.tasks.get? task).map fun t => t.stage.rank).getD Stage.finished.rank

section Client

variable {settings : Settings} {client client' : DataClient} {id task answers : ℕ} {action : Action}

/-- Nautilus's new tasks take the next numbers. -/
theorem get?_newTasks (tasks : Dict ℕ Task) (first count : ℕ) (new : Task) (task : ℕ) :
    ((List.range count).foldl (fun tasks i => tasks.set (first + i) new) tasks).get? task =
      if first ≤ task ∧ task < first + count then some new else tasks.get? task := by
  induction count with
  | zero =>
    rw [if_neg (by omega)]
    rfl
  | succ count ih =>
    rw [List.range_succ, List.foldl_append, List.foldl_cons, List.foldl_nil, Dict.get?_set, ih]
    by_cases hlast : first + count = task
    · rw [if_pos hlast, if_pos (by omega)]
    · rw [if_neg hlast]
      by_cases hold : first ≤ task ∧ task < first + count
      · rw [if_pos hold, if_pos (by omega)]
      · rw [if_neg hold, if_neg (by omega)]

/-- A request that comes gets a task of its own. -/
theorem Orderly.submit (h : Orderly client) (request : RequestData) (count : ℕ) :
    Orderly (client.submit request count) := by
  unfold DataClient.submit
  dsimp only
  split
  · exact ⟨(h.filed.set request).erase request.id, h.numbered⟩
  · refine ⟨h.filed.set request, ?_⟩
    intro task t hget
    dsimp only at hget ⊢
    rw [get?_newTasks] at hget
    split at hget
    · omega
    · have hlt := h.numbered task t hget
      omega

/-- Another request comes. -/
theorem submit_aside (h : Orderly client) {request : RequestData} (hne : request.id ≠ id)
    (count : ℕ) : Aside id client (client.submit request count) := by
  refine ⟨h.submit request count, ?_, ?_⟩
  · unfold DataClient.submit
    dsimp only
    split
    · dsimp only
      rw [Dict.get?_erase, if_neg hne.symm, Dict.get?_set_of_ne _ _ hne]
    · exact Dict.get?_set_of_ne _ _ hne
  · intro task t hid
    unfold DataClient.submit
    dsimp only
    split
    · exact Iff.rfl
    · dsimp only
      rw [get?_newTasks]
      split
      · rename_i hnew
        -- the task is another request's, and its number is not in use
        constructor
        · intro heq
          rw [← Option.some.inj heq] at hid
          exact absurd hid hne
        · intro hold
          have hlt := h.numbered task t hold
          omega
      · exact Iff.rfl

/-- A stage of another request's task is written. -/
theorem Orderly.set (h : Orderly client) {t : Task} (hget : client.tasks.get? task = some t)
    {unanswered : Dict ℕ RequestData} (hfiled : Filed unanswered) (t' : Task) :
    Orderly { client with unanswered, tasks := client.tasks.set task t' } :=
  ⟨hfiled, Dict.forall_set h.numbered (h.numbered task t hget)⟩

/-- The task of another request goes on. -/
theorem set_aside (h : Orderly client) {t : Task} (hget : client.tasks.get? task = some t)
    (hne : t.request.id ≠ id) {unanswered : Dict ℕ RequestData} (hfiled : Filed unanswered)
    (hsame : unanswered.get? id = client.unanswered.get? id) (stage : Stage) :
    Aside id client { client with unanswered, tasks := client.tasks.set task { t with stage } } := by
  refine ⟨h.set hget hfiled _, hsame, ?_⟩
  intro other found hid
  dsimp only
  rw [Dict.get?_set]
  split
  · rename_i heq
    subst heq
    rw [hget]
    constructor <;>
      (intro hfound
       rw [← Option.some.inj hfound] at hid
       exact absurd hid hne)
  · exact Iff.rfl

/-- What leaves the requests and their tasks leaves every request aside. -/
theorem Aside.of_same (h : Orderly client) (hunanswered : client'.unanswered = client.unanswered)
    (htasks : client'.tasks = client.tasks) (hnext : client'.nextTask = client.nextTask) :
    Aside id client client' := by
  refine ⟨⟨?_, ?_⟩, ?_, ?_⟩
  · rw [hunanswered]
    exact h.filed
  · rw [htasks, hnext]
    exact h.numbered
  · rw [hunanswered]
  · intro task t _
    rw [htasks]

/-- Nothing happens to the request. -/
theorem Aside.refl (h : Orderly client) : Aside id client client := .of_same h rfl rfl rfl

/-- What is not about a request's own task leaves the request aside, and does not answer it. -/
theorem step_aside (settings : Settings) (h : Orderly client)
    (hnew : ∀ request count, action = .request request count → request.id ≠ id)
    (hother : ∀ task t, action.task? = some task → client.tasks.get? task = some t →
      t.request.id ≠ id) :
    Aside id client ((machine settings).step client action).1 ∧
      responses id ((machine settings).step client action).2 = 0 := by
  cases action with
  | request request count => exact ⟨submit_aside h (hnew request count rfl) count, rfl⟩
  | turn task world outcome =>
    show Aside id client (client.turn settings task world outcome).1 ∧
      responses id (client.turn settings task world outcome).2 = 0
    unfold DataClient.turn
    split
    · exact ⟨.refl h, rfl⟩
    · rename_i t hget
      have hne := hother task t rfl hget
      obtain ⟨hsame, hnone⟩ := taskTurn_other settings world outcome t.stage h.filed hne
      exact ⟨set_aside h hget hne (taskTurn_filed h.filed) hsame _, hnone⟩
  | cancel task =>
    refine ⟨?_, rfl⟩
    show Aside id client (client.cancel task)
    unfold DataClient.cancel
    split
    · rename_i request cancelled hget
      exact set_aside h hget (hother task _ rfl hget) h.filed rfl _
    · exact .refl h
  | connects => exact ⟨.of_same h rfl rfl rfl, rfl⟩
  | connected => exact ⟨.of_same h rfl rfl rfl, rfl⟩
  | disconnects => exact ⟨.of_same h rfl rfl rfl, rfl⟩
  | loads instruments => exact ⟨.of_same h rfl rfl rfl, rfl⟩

/-- Before it is asked for, a request stays unknown. -/
theorem Unasked.step (settings : Settings) (h : Unasked id client)
    (hnew : ∀ request count, action = .request request count → request.id ≠ id) :
    Unasked id ((machine settings).step client action).1 ∧
      responses id ((machine settings).step client action).2 = 0 := by
  obtain ⟨haside, hnone⟩ := step_aside settings h.orderly hnew
    fun task t _ hget => h.others task t hget
  refine ⟨⟨haside.orderly, haside.unanswered.trans h.unanswered, ?_⟩, hnone⟩
  intro task t hget hid
  exact h.others task t ((haside.tasks task t hid).mp hget) hid

/-- A request that is given one task is tracked from there. -/
theorem Unasked.submit {request : RequestData} (h : Unasked request.id client) :
    Tracked request.id client.nextTask 0 (client.submit request 1) := by
  refine ⟨h.orderly.submit request 1, ⟨⟨request, .created false⟩, ?_, rfl, ?_, rfl⟩, ?_⟩
  · show (client.tasks.set (client.nextTask + 0) _).get? client.nextTask = _
    exact Dict.get?_set_self _ _ _
  · show ((client.unanswered.set request.id request).get? request.id).isSome = true
    rw [Dict.get?_set_self]
    rfl
  · exact Dict.forall_set (fun other t hget hid => absurd hid (h.others other t hget)) fun _ => rfl

/-- A task has run its callback. -/
def Finished (task : ℕ) (client : DataClient) : Prop :=
  ∃ t, client.tasks.get? task = some t ∧ t.stage = .finished

/-- The rank of a task is that of its stage. -/
theorem rank_of_get? {t : Task} (h : client.tasks.get? task = some t) :
    client.rank task = t.stage.rank := by
  rw [DataClient.rank, h]
  rfl

/-- What happens aside leaves the request tracked, at its rank. -/
theorem Tracked.aside (h : Tracked id task answers client) (haside : Aside id client client') :
    Tracked id task answers client' ∧ client'.rank task = client.rank task := by
  obtain ⟨t, hget, hid, hstands⟩ := h.stands
  have hget' := (haside.tasks task t hid).mpr hget
  refine ⟨⟨haside.orderly, ⟨t, hget', hid, ?_⟩, ?_⟩, ?_⟩
  · rw [haside.unanswered]
    exact hstands
  · intro other found hfound hfoundId
    exact h.others other found ((haside.tasks other found hfoundId).mp hfound) hfoundId
  · rw [rank_of_get? hget, rank_of_get? hget']

/-- A stage of the request's own task is written. -/
theorem Tracked.set (h : Tracked id task answers client) {t : Task}
    (hget : client.tasks.get? task = some t) (hid : t.request.id = id)
    {unanswered : Dict ℕ RequestData} (hfiled : Filed unanswered) {stage : Stage} (more : ℕ)
    (hstands : stage.Stands (unanswered.get? id).isSome (answers + more)) :
    Tracked id task (answers + more)
      { client with unanswered, tasks := client.tasks.set task { t with stage } } := by
  refine ⟨h.orderly.set hget hfiled _, ⟨{ t with stage }, Dict.get?_set_self _ _ _, hid, hstands⟩, ?_⟩
  exact Dict.forall_set h.others fun _ => rfl

/-- A turn of the request's own task. -/
theorem Tracked.turn (settings : Settings) (h : Tracked id task answers client) (world : World)
    (outcome : Outcome) :
    let out := client.turn settings task world outcome
    Tracked id task (answers + responses id out.2) out.1 ∧
      (out.1.rank task < client.rank task ∨
        Finished task client ∧ out.1.rank task = client.rank task) := by
  obtain ⟨t, hget, hid, hstands⟩ := h.stands
  subst hid
  obtain ⟨hstands', hrank⟩ := taskTurn_stands settings world outcome h.orderly.filed hstands
  unfold DataClient.turn
  rw [hget]
  dsimp only at hstands' hrank ⊢
  refine ⟨h.set hget rfl (taskTurn_filed h.orderly.filed) _ hstands', ?_⟩
  rw [rank_of_get? hget, rank_of_get? (Dict.get?_set_self _ _ _)]
  rcases hrank with ⟨hfinished, hstays⟩ | hlower
  · refine .inr ⟨⟨t, hget, hfinished⟩, ?_⟩
    dsimp only
    rw [hstays, hfinished]
  · exact .inl hlower

/-- A cancellation only marks a task that has not run. -/
theorem Tracked.cancel (h : Tracked id task answers client) :
    Tracked id task answers (client.cancel task) ∧
      (client.cancel task).rank task = client.rank task := by
  obtain ⟨t, hget, hid, hstands⟩ := h.stands
  unfold DataClient.cancel
  rw [hget]
  split
  · rename_i request cancelled heq
    cases heq
    refine ⟨h.set hget hid h.orderly.filed 0 hstands, ?_⟩
    rw [rank_of_get? hget, rank_of_get? (Dict.get?_set_self _ _ _)]
    rfl
  · exact ⟨h, rfl⟩

/-- A tracked request stays so, and its task comes no further from its end; its own turns bring it
nearer. -/
theorem Tracked.step (settings : Settings) (h : Tracked id task answers client)
    (hnew : ∀ request count, action = .request request count → request.id ≠ id) :
    let out := (machine settings).step client action
    Tracked id task (answers + responses id out.2) out.1 ∧ out.1.rank task ≤ client.rank task ∧
      ∀ world outcome, action = .turn task world outcome → ¬ Finished task client →
        out.1.rank task < client.rank task := by
  by_cases hmine : action.task? = some task
  · cases action with
    | turn other world outcome =>
      obtain rfl := Option.some.inj hmine
      obtain ⟨htracked, hrank⟩ := h.turn settings world outcome
      refine ⟨htracked, ?_, ?_⟩
      · rcases hrank with hlower | ⟨-, hsame⟩
        · exact hlower.le
        · exact hsame.le
      · intro _ _ _ hopen
        exact hrank.resolve_right fun hfinished => hopen hfinished.1
    | cancel other =>
      obtain rfl := Option.some.inj hmine
      obtain ⟨htracked, hsame⟩ := h.cancel
      exact ⟨htracked, hsame.le, nofun⟩
    | _ => exact nomatch hmine
  · have hother : ∀ other t, action.task? = some other → client.tasks.get? other = some t →
        t.request.id ≠ id := by
      intro other t hother hget hid
      rw [h.others other t hget hid] at hother
      exact hmine hother
    obtain ⟨haside, hnone⟩ := step_aside settings h.orderly hnew hother
    obtain ⟨htracked, hsame⟩ := h.aside haside
    dsimp only
    rw [hnone]
    refine ⟨htracked, hsame.le, ?_⟩
    rintro world outcome rfl
    exact absurd rfl hmine

end Client

/-! ## Endless runs -/

section Runs

variable {settings : Settings} {run : ℕ → Action} {request : RequestData} {k : ℕ}

/-- At the start no request is there. -/
theorem unasked_new (id : ℕ) : Unasked id {} := by
  refine ⟨⟨?_, ?_⟩, rfl, ?_⟩
  · intro other request hget
    cases hget
  · intro task t hget
    cases hget
  · intro task t hget
    cases hget

/-- A request is unknown until it is made. -/
theorem unasked_before (settings : Settings)
    (honce : ∀ j other count, j < k → run j = .request other count → other.id ≠ request.id) {n : ℕ}
    (hn : n ≤ k) : Unasked request.id ((machine settings).stateAt {} run n) ∧
      responses request.id ((machine settings).toldBy {} run n) = 0 := by
  induction n with
  | zero => exact ⟨unasked_new request.id, rfl⟩
  | succ n ih =>
    obtain ⟨hunasked, hnone⟩ := ih (by omega)
    obtain ⟨hunasked', hnone'⟩ := hunasked.step settings
      fun other count heq => honce n other count (by omega) heq
    rw [Machine.stateAt_succ, Machine.toldBy_succ, responses_append, hnone, hnone']
    exact ⟨hunasked', rfl⟩

/-- From its submission on a request is tracked with the answers told so far. -/
theorem tracked_from (settings : Settings) (hasked : run k = .request request 1)
    (honce : ∀ j other count, j ≠ k → run j = .request other count → other.id ≠ request.id) {n : ℕ}
    (hn : k + 1 ≤ n) :
    Tracked request.id ((machine settings).stateAt {} run k).nextTask
      (responses request.id ((machine settings).toldBy {} run n))
      ((machine settings).stateAt {} run n) := by
  obtain ⟨hunasked, hnone⟩ := unasked_before settings
    (fun j other count hj => honce j other count (by omega)) (le_refl k)
  refine Machine.holds_from (I := fun told client => Tracked request.id _ (responses request.id told)
    client) ?_ ?_ hn
  · rw [Machine.toldBy_succ, Machine.stateAt_succ, hasked, responses_append, hnone]
    exact hunasked.submit
  · intro j hj told client htracked
    rw [responses_append]
    exact (htracked.step settings fun other count heq => honce j other count (by omega) heq).1

/-- A tracked request has at most one response. -/
theorem Tracked.answers_le {id task answers : ℕ} {client : DataClient}
    (h : Tracked id task answers client) : answers ≤ 1 := by
  obtain ⟨t, -, -, hstands⟩ := h.stands
  generalize t.stage = stage at hstands
  cases stage with
  | created cancelled => exact hstands.2 ▸ Nat.zero_le 1
  | reading reading => exact hstands.2.1 ▸ Nat.zero_le 1
  | ended cancelled =>
    rcases hstands with ⟨-, hone⟩ | ⟨-, -, hnone⟩ <;> omega
  | finished => exact le_of_eq hstands

/-- What is told once stays told. -/
theorem responses_mono (id : ℕ) {n j : ℕ} (hj : n ≤ j) :
    responses id ((machine settings).toldBy {} run n) ≤
      responses id ((machine settings).toldBy {} run j) := by
  induction j, hj using Nat.le_induction with
  | base => exact le_refl _
  | succ j _ ih =>
    rw [Machine.toldBy_succ, responses_append]
    omega

/-- In every endless run in which a request is made once, is given one task, and that task's turns come
again and again, the request is answered exactly once: whatever the venue's calls come to and whenever
the task is cancelled, there are never two responses, and at some time there is one. -/
theorem request_answered_once (settings : Settings) (run : ℕ → Action) (request : RequestData) (k : ℕ)
    (hasked : run k = .request request 1)
    (honce : ∀ j other count, j ≠ k → run j = .request other count → other.id ≠ request.id)
    (hturns : Machine.Recurs run fun action => ∃ world outcome,
      action = .turn ((machine settings).stateAt {} run k).nextTask world outcome) :
    (∀ n, responses request.id ((machine settings).toldBy {} run n) ≤ 1) ∧
      ∃ n, ∀ j, n ≤ j → responses request.id ((machine settings).toldBy {} run j) = 1 := by
  have htracked {n : ℕ} (hn : k + 1 ≤ n) := tracked_from settings hasked honce hn
  have hbound (n : ℕ) : responses request.id ((machine settings).toldBy {} run n) ≤ 1 :=
    (responses_mono request.id (le_max_left n (k + 1))).trans
      (htracked (le_max_right n (k + 1))).answers_le
  have hstep {n : ℕ} (hn : k + 1 ≤ n) := (htracked hn).step settings
    fun other count (heq : run n = .request other count) => honce n other count (by omega) heq
  -- the task comes to its end, so its callback has run
  have hend : ∃ n, k + 1 ≤ n ∧ Finished ((machine settings).stateAt {} run k).nextTask
      ((machine settings).stateAt {} run n) := by
    refine Machine.reaches_of_rank
      (fun client => client.rank ((machine settings).stateAt {} run k).nextTask) hturns ?_ ?_
    · intro n hn _
      rw [Machine.stateAt_succ]
      exact (hstep hn).2.1
    · rintro n hn ⟨world, outcome, hturn⟩ hopen
      rw [Machine.stateAt_succ]
      exact (hstep hn).2.2 world outcome hturn hopen
  obtain ⟨n, hn, t, hget, hfinished⟩ := hend
  refine ⟨hbound, n, fun j hj => le_antisymm (hbound j) ?_⟩
  obtain ⟨t', hget', -, hstands⟩ := (htracked hn).stands
  obtain rfl := Option.some.inj (hget.symm.trans hget')
  rw [hfinished] at hstands
  have hone : responses request.id ((machine settings).toldBy {} run n) = 1 := hstands
  rw [← hone]
  exact responses_mono request.id hj

/-- A request for the newest hourly bars. -/
def newestHours : RequestData where
  id := 7
  content := .bars { barType := ⟨instrumentIdOf "EURUSD", 1, .hour, .bid, .external⟩ }

def twoBarPages : Settings where
  accountId := 1
  historyPageSize := 2
  historyMaxGapDays := 7
  historyMaxGapOverrides := Dict.empty
  refuses := fun _ => none
  historyPageSize_pos := by decide

/-- The task of a request is cancelled while it awaits its first page. -/
def cancelledRead : ℕ → Action
  | 0 => .connects
  | 1 => .connected
  | 2 => .loads (Dict.empty.set (instrumentIdOf "EURUSD")
    { id := instrumentIdOf "EURUSD", currencyPair := true, quoteCurrency := ⟨"USD", .fiat⟩
      pricePrecision := 5, sizePrecision := 0, symbolId := 1 })
  | 3 => .request newestHours 1
  | _ => .turn 0 ⟨7200, 0, fun _ => none⟩ .cancelled

/-- It is answered in the turn that cancels it, and never again. -/
theorem cancelledRead_answered_once :
    (machine twoBarPages).toldBy {} cancelledRead 6 =
        requestFailed newestHours (answerDataType newestHours) "connection closed" ∧
      (∀ n, responses 7 ((machine twoBarPages).toldBy {} cancelledRead n) ≤ 1) ∧
      ∃ n, ∀ j, n ≤ j → responses 7 ((machine twoBarPages).toldBy {} cancelledRead j) = 1 := by
  have honce : ∀ j other count, j ≠ 3 → cancelledRead j = .request other count →
      other.id ≠ newestHours.id := by
    intro j other count hj hrequest
    match j with
    | 0 | 1 | 2 => cases hrequest
    | 3 => exact absurd rfl hj
    | j + 4 => cases hrequest
  have hturns : Machine.Recurs cancelledRead fun action => ∃ world outcome,
      action = .turn ((machine twoBarPages).stateAt {} cancelledRead 3).nextTask world outcome :=
    fun n => ⟨n + 4, Nat.le_add_right n 4, _, _, rfl⟩
  exact ⟨by decide +kernel,
    request_answered_once twoBarPages cancelledRead newestHours 3 rfl honce hturns⟩

end Runs

end Requests

end NautilusCtrader
