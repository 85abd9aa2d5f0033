import Mathlib.Data.List.Induction
import NautilusCtrader.Instruments.Loads

/-!
# Fresh chains and blocked symbols

A chain is cached by the query that asked for it, and only when no reset came while the query awaited
the venue: a reset that may make its answer stale raises the generation, since the query is counted as
waiting. So a cached chain was asked for after the last reset that dropped or could have made it stale.
A symbol `remove_failed` drops stays out, and among the failures, until it is requested again or all
chains are reset.
-/

namespace NautilusCtrader

open Common

namespace Instruments

/-! ## What an action brings -/

/-- The symbols the venue sends with an action. -/
def Action.lights : Action → List ProtoOALightSymbol
  | .referenceData symbols _ _ => symbols
  | .queryEnds _ outcome => outcome.lights
  | _ => []

/-- The names an action requests. -/
def Action.requests : Action → List String
  | .loadIds ids => System.requestedNames ids
  | _ => []

/-- Whether an action leaves the queries, the chains and the blocks to a call's turn. -/
def Action.isTurn : Action → Bool
  | .queryRuns _ | .queryEnds _ _ | .removeFailed _ _ | .resetConversionCache _ => false
  | _ => true

/-- What is kept to in a run: the venue sends symbols of `L`, and only the adapter's own instruments are
removed. -/
structure Action.Allowed (L : Set ProtoOALightSymbol) (action : Action) : Prop where
  lights : ∀ light ∈ action.lights, light ∈ L
  own : ∀ id reason, action = .removeFailed id reason → id.venue = ctraderVenue

variable {settings : Settings} {L : Set ProtoOALightSymbol} {s : System} {action : Action}

/-- New reference data the venue sent is known. -/
theorem Known.referenceData (h : Known L s) {symbols : List ProtoOALightSymbol}
    (hsymbols : ∀ light ∈ symbols, light ∈ L) (assets : List ProtoOAAsset) (depositAssetId : ℤ) :
    Known L { s with account := s.account.loadReferenceData symbols assets depositAssetId } := by
  refine ⟨?_, h.calls, h.ended, h.chains⟩
  intro name light hlight
  dsimp only [Account.loadReferenceData] at hlight
  split at hlight
  · exact h.account name light hlight
  · rcases Dict.get?_foldl_set_eq_some hlight with hempty | ⟨found, hfound, -, rfl⟩
    · simp at hempty
    · exact hsymbols found hfound

/-- An action that is a turn of a call moves the provider as calls do. -/
theorem step_turn (settings : Settings) (hknown : Known L s) (hsound : Sound s.provider)
    (hlights : ∀ light ∈ action.lights, light ∈ L) (hturn : action.isTurn = true) :
    Turn L action.requests s ((machine settings).step s action) := by
  cases action with
  | connected connected =>
    exact ⟨.refl, ⟨hknown.account, hknown.calls, hknown.ended, hknown.chains⟩, rfl,
      fun _ _ h => .inl h, le_refl _, nofun⟩
  | referenceData symbols assets depositAssetId =>
    exact ⟨.refl, hknown.referenceData hlights assets depositAssetId, rfl, fun _ _ h => .inl h,
      le_refl _, nofun⟩
  | loadAll => exact loadAll_turn hknown
  | loadIds ids => exact loadIds_turn hknown ids
  | reload symbolId => exact reload_turn hknown symbolId
  | conversionInstrumentsFor id => exact conversionInstrumentsFor_turn hknown id
  | resumeChain call => exact resumeChain_turn hknown call
  | resumeSpecs call answer => exact resumeSpecs_turn hknown hsound call answer
  | cancelCall call => exact cancelCall_turn hknown call
  | queryRuns => exact nomatch hturn
  | queryEnds => exact nomatch hturn
  | removeFailed => exact nomatch hturn
  | resetConversionCache => exact nomatch hturn

/-! ## Removed instruments -/

section Removed

variable {p : Provider} {id : InstrumentId}

/-- A removed symbol is blocked. -/
theorem removeFailed_blocked (p : Provider) (id : InstrumentId) (reason : String) :
    (p.removeFailed id reason).blocked = insert id.symbol p.blocked := by
  dsimp only [Provider.removeFailed]
  split <;> rfl

/-- The chains stay. -/
theorem removeFailed_chains (p : Provider) (id : InstrumentId) (reason : String) :
    (p.removeFailed id reason).chains = p.chains ∧
      (p.removeFailed id reason).chainGeneration = p.chainGeneration ∧
      (p.removeFailed id reason).chainQueries = p.chainQueries := by
  dsimp only [Provider.removeFailed]
  split <;> exact ⟨rfl, rfl, rfl⟩

/-- Only the removed instrument is gone. -/
theorem removeFailed_find (p : Provider) (id : InstrumentId) (reason : String) (other : InstrumentId) :
    (p.removeFailed id reason).find other = if other = id then none else p.find other := by
  dsimp only [Provider.removeFailed]
  split
  · rename_i hnone
    show p.instruments.get? other = if other = id then none else p.instruments.get? other
    split
    · rename_i heq
      rw [heq, hnone]
    · rfl
  · exact Dict.get?_erase p.instruments id other

/-- It is among the failures, with the reason. -/
theorem removeFailed_failures (p : Provider) (id : InstrumentId) (reason : String) (name : String) :
    (p.removeFailed id reason).failures.get? name =
      if id.symbol = name then some ⟨id.symbol, .removed reason⟩ else p.failures.get? name := by
  dsimp only [Provider.removeFailed]
  split <;> exact Dict.get?_set p.failures id.symbol _ name

/-- The adapter's own instrument is removed. -/
theorem Sound.removeFailed (h : Sound p) (hown : id.venue = ctraderVenue) (reason : String) :
    Sound (p.removeFailed id reason) := by
  intro name hname
  rw [removeFailed_blocked, Finset.mem_insert] at hname
  rw [removeFailed_find, removeFailed_failures]
  by_cases heq : id.symbol = name
  · have hid : instrumentIdOf name = id := by
      rw [← heq, instrumentIdOf, ← hown]
    rw [if_pos hid, if_pos heq]
    exact ⟨rfl, rfl⟩
  · obtain ⟨hfind, hfailure⟩ := h name (hname.resolve_left fun hsame => heq hsame.symm)
    rw [hfind, if_neg heq, ite_self]
    exact ⟨rfl, hfailure⟩

/-- A removed instrument is found by no symbol id, where names have one. -/
theorem Indexed.removeFailed (h : Indexed L p) (hone : OneId L) (id : InstrumentId) (reason : String) :
    Indexed L (p.removeFailed id reason) := by
  constructor
  · intro other instrument hfound
    rw [removeFailed_find] at hfound
    split at hfound
    · exact nomatch hfound
    · exact h.loaded other instrument hfound
  · intro symbolId instrument hfound
    rw [removeFailed_find]
    suffices hold : p.instrumentForSymbolId symbolId = some instrument ∧ instrument.id ≠ id by
      rw [if_neg hold.2]
      exact h.found symbolId instrument hold.1
    dsimp only [Provider.removeFailed] at hfound
    split at hfound
    · rename_i hnone
      refine ⟨hfound, fun heq => ?_⟩
      obtain ⟨hloaded, -⟩ := h.found symbolId instrument hfound
      rw [heq, show p.find id = none from hnone] at hloaded
      exact nomatch hloaded
    · rename_i removed hremoved
      change (p.bySymbolId.erase removed.symbolId).get? symbolId = some instrument at hfound
      obtain ⟨hother, hheld⟩ := Dict.get?_erase_eq_some.mp hfound
      refine ⟨hheld, fun heq => hother ?_⟩
      -- one name, one symbol id: it was the instrument that is removed
      obtain ⟨-, light, hlight, hname, hsymbol⟩ := h.found symbolId instrument hheld
      obtain ⟨light', hlight', hname', hsymbol'⟩ := h.loaded id removed hremoved
      rw [← hsymbol, hsymbol']
      refine hone light hlight light' hlight' (instrumentIdOf_injective ?_)
      rw [← hname, ← hname', heq]

end Removed

/-! ## Resets -/

section Resets

variable {p : Provider}

/-- A chain that stays is not one the reset drops. -/
theorem resetConversionCache_chain {symbolId : Option ℤ} {key : ChainKey}
    {chain : List ProtoOALightSymbol}
    (h : (p.resetConversionCache symbolId).1.chains.get? key = some chain) :
    p.chains.get? key = some chain ∧ Provider.resetDrops symbolId chain = false := by
  have hchains : (p.resetConversionCache symbolId).1.chains =
      (p.stale symbolId).foldl Dict.erase p.chains := by
    unfold Provider.resetConversionCache
    dsimp only
    split <;> split <;> rfl
  rw [hchains, Dict.get?_foldl_erase] at h
  split at h
  case isTrue => simp at h
  case isFalse hkept =>
    refine ⟨h, eq_false_of_ne_true fun hdrops => hkept ?_⟩
    refine List.mem_map.mpr ⟨(key, chain), List.mem_filter.mpr ⟨Dict.get?_eq_some.mp h, hdrops⟩, rfl⟩

/-- A reset keeps the instruments, and a partial one the blocks. -/
theorem resetConversionCache_tables (p : Provider) (symbolId : Option ℤ) :
    let after := (p.resetConversionCache symbolId).1
    after.instruments = p.instruments ∧ after.failures = p.failures ∧
      after.bySymbolId = p.bySymbolId ∧ after.chainQueries = p.chainQueries ∧
      after.blocked = if symbolId.isNone then ∅ else p.blocked := by
  unfold Provider.resetConversionCache
  dsimp only
  split <;> split <;> exact ⟨rfl, rfl, rfl, rfl, rfl⟩

/-- While a query waits, a reset raises the generation. -/
theorem resetConversionCache_generation (p : Provider) (symbolId : Option ℤ) :
    p.chainGeneration ≤ (p.resetConversionCache symbolId).1.chainGeneration ∧
      (0 < p.chainQueries →
        (p.resetConversionCache symbolId).1.chainGeneration = p.chainGeneration + 1) := by
  unfold Provider.resetConversionCache
  dsimp only
  constructor
  · split <;> split <;> simp
  · intro hwaits
    have hraises : (symbolId.isNone || decide (p.stale symbolId ≠ []) || decide (p.chainQueries ≠ 0)) =
        true := by
      simp [Nat.ne_of_gt hwaits]
    rw [if_pos hraises]
    split <;> rfl

end Resets

/-! ## What every run keeps -/

/-- The tables, while the venue sends symbols of `L`. -/
structure Kept (L : Set ProtoOALightSymbol) (s : System) : Prop where
  known : Known L s
  sound : Sound s.provider
  indexed : OneId L → Indexed L s.provider

/-- The tasks of the queries are numbered once, and those that wait are counted. -/
structure Counted (s : System) : Prop where
  queries : s.provider.chainQueries = s.asking.size
  created : ∀ task key, s.created.get? task = some key → task < s.nextTask ∧ s.asking.get? task = none
  asking : ∀ task query, s.asking.get? task = some query →
    task < s.nextTask ∧ query.generation ≤ s.provider.chainGeneration

/-- A turn keeps the tables. -/
theorem Kept.turn {names : List String} {out : System × List Told} (h : Kept L s)
    (hturn : Turn L names s out) : Kept L out.1 where
  known := hturn.known
  sound := hturn.moves.sound h.sound
  indexed := fun hone => hturn.moves.indexed (h.indexed hone)

/-- A turn numbers no query twice. -/
theorem Counted.turn {names : List String} {out : System × List Told} (h : Counted s)
    (hturn : Turn L names s out) : Counted out.1 := by
  obtain ⟨-, hgeneration, hqueries⟩ := hturn.moves.chains
  constructor
  · rw [hqueries, hturn.asking]
    exact h.queries
  · intro task key hcreated
    rw [hturn.asking]
    rcases hturn.created task key hcreated with hold | ⟨hfirst, hnew⟩
    · obtain ⟨hlt, hnone⟩ := h.created task key hold
      exact ⟨hlt.trans_le hturn.nextTask, hnone⟩
    · refine ⟨hnew, ?_⟩
      -- what waits has an earlier number
      cases hasking : s.asking.get? task with
      | none => rfl
      | some query =>
        have hlt := (h.asking task query hasking).1
        omega
  · intro task query hasking
    rw [hturn.asking] at hasking
    obtain ⟨hlt, hle⟩ := h.asking task query hasking
    rw [hgeneration]
    exact ⟨hlt.trans_le hturn.nextTask, hle⟩

/-- A query asks the venue. -/
theorem Counted.queryRuns (h : Counted s) (task : ℕ) : Counted (s.queryRuns task) := by
  unfold System.queryRuns
  split
  · exact h
  · rename_i key hcreated
    obtain ⟨hlt, hnone⟩ := h.created task key hcreated
    constructor
    · show s.provider.chainQueries + 1 = (s.asking.set task _).size
      rw [Dict.size_set_of_none _ hnone, h.queries]
    · intro other otherKey hother
      obtain ⟨hne, hheld⟩ := Dict.get?_erase_eq_some.mp hother
      show other < s.nextTask ∧ (s.asking.set task _).get? other = none
      rw [Dict.get?_set_of_ne _ _ (Ne.symm hne)]
      exact h.created other otherKey hheld
    · exact Dict.forall_set h.asking ⟨hlt, le_refl _⟩

/-- What the end of a query writes: the chain it found, if its generation still counts, or nothing. -/
def Caches (s : System) (query : ChainQuery) (outcome : QueryEnd)
    (chains : Dict ChainKey (List ProtoOALightSymbol)) : Prop :=
  chains = s.provider.chains ∨ ∃ chain, outcome = .answered chain ∧ chain ≠ [] ∧
    query.generation = s.provider.chainGeneration ∧ chains = s.provider.chains.set query.key chain

/-- A task ends as a query that waits, is cancelled before it runs, or has ended before. -/
theorem queryEnds_cases (s : System) (task : ℕ) (outcome : QueryEnd) :
    (∃ query chainTasks chains, s.asking.get? task = some query ∧ Caches s query outcome chains ∧
      s.queryEnds task outcome = { s with
        provider := { s.provider with chainQueries := s.provider.chainQueries - 1, chainTasks, chains }
        asking := s.asking.erase task
        ended := s.ended.set task outcome }) ∨
    s.asking.get? task = none ∧ (s.queryEnds task outcome = s ∨ s.queryEnds task outcome = { s with
      created := s.created.erase task
      ended := s.ended.set task .cancelled }) := by
  dsimp only [System.queryEnds]
  cases hasking : s.asking.get? task with
  | none =>
    refine .inr ⟨rfl, ?_⟩
    dsimp only
    split
    · exact .inr rfl
    · exact .inl rfl
  | some query =>
    refine .inl ⟨query, if s.provider.chainTasks.get? query.key = some task then
      s.provider.chainTasks.erase query.key else s.provider.chainTasks, ?_⟩
    cases outcome with
    | answered chain =>
      dsimp only
      by_cases hwrites : chain ≠ [] ∧ query.generation = s.provider.chainGeneration
      · rw [if_pos hwrites]
        exact ⟨_, rfl, .inr ⟨chain, rfl, hwrites.1, hwrites.2, rfl⟩, rfl⟩
      · rw [if_neg hwrites]
        exact ⟨_, rfl, .inl rfl, rfl⟩
    | failed => exact ⟨_, rfl, .inl rfl, rfl⟩
    | cancelled => exact ⟨_, rfl, .inl rfl, rfl⟩

/-- A query ends. -/
theorem Counted.queryEnds (h : Counted s) (task : ℕ) (outcome : QueryEnd) :
    Counted (s.queryEnds task outcome) := by
  obtain ⟨query, chainTasks, chains, hasking, -, hends⟩ | ⟨hnone, hends | hends⟩ :=
    queryEnds_cases s task outcome
  · rw [hends]
    constructor
    · show s.provider.chainQueries - 1 = (s.asking.erase task).size
      have hsize := Dict.size_erase_of_some hasking
      have hqueries := h.queries
      omega
    · intro other key hother
      obtain ⟨hlt, hnone⟩ := h.created other key hother
      refine ⟨hlt, ?_⟩
      show (s.asking.erase task).get? other = none
      rw [Dict.get?_erase, hnone, ite_self]
    · exact Dict.forall_erase h.asking task
  · rw [hends]
    exact h
  · rw [hends]
    exact ⟨h.queries, Dict.forall_erase h.created task, h.asking⟩

/-- The queries and what they have brought change, and the other tables stand. -/
theorem Kept.withQueries (h : Kept L s) {chainQueries : ℕ} {chainTasks : Dict ChainKey ℕ}
    {chains : Dict ChainKey (List ProtoOALightSymbol)} {created : Dict ℕ ChainKey}
    {asking : Dict ℕ ChainQuery} {ended : Dict ℕ QueryEnd}
    (hended : ∀ task outcome, ended.get? task = some outcome → ∀ light ∈ outcome.lights, light ∈ L)
    (hchains : ∀ key chain, chains.get? key = some chain → ∀ leg ∈ chain, leg ∈ L) :
    Kept L { s with
      provider := { s.provider with chainQueries, chainTasks, chains }
      created, asking, ended } where
  known := ⟨h.known.account, h.known.calls, hended, hchains⟩
  sound := h.sound
  indexed := fun hone => ⟨(h.indexed hone).loaded, (h.indexed hone).found⟩

/-- A query ends with a chain that the venue sent, or fails. -/
theorem Kept.queryEnds (h : Kept L s) (task : ℕ) {outcome : QueryEnd}
    (hlights : ∀ light ∈ outcome.lights, light ∈ L) : Kept L (s.queryEnds task outcome) := by
  obtain ⟨query, chainTasks, chains, -, hcaches, hends⟩ | ⟨-, hends | hends⟩ :=
    queryEnds_cases s task outcome
  · rw [hends]
    refine h.withQueries (Dict.forall_set h.known.ended hlights) ?_
    obtain rfl | ⟨answer, rfl, -, -, rfl⟩ := hcaches
    · exact h.known.chains
    · exact Dict.forall_set h.known.chains hlights
  · rw [hends]
    exact h
  · rw [hends]
    exact h.withQueries (Dict.forall_set h.known.ended (by simp [QueryEnd.lights])) h.known.chains

/-- A query asks the venue. -/
theorem Kept.queryRuns (h : Kept L s) (task : ℕ) : Kept L (s.queryRuns task) := by
  unfold System.queryRuns
  split
  · exact h
  · exact h.withQueries h.known.ended h.known.chains

/-- An instrument is removed. -/
theorem Kept.removeFailed (h : Kept L s) {id : InstrumentId} (hown : id.venue = ctraderVenue)
    (reason : String) : Kept L { s with provider := s.provider.removeFailed id reason } where
  known :=
    { account := h.known.account
      calls := h.known.calls
      ended := h.known.ended
      chains := by
        intro key chain hchain
        rw [show (s.provider.removeFailed id reason).chains = s.provider.chains from
          (removeFailed_chains s.provider id reason).1] at hchain
        exact h.known.chains key chain hchain }
  sound := h.sound.removeFailed hown reason
  indexed := fun hone => (h.indexed hone).removeFailed hone id reason

/-- Chains are reset. -/
theorem Kept.reset (h : Kept L s) (symbolId : Option ℤ) :
    Kept L { s with provider := (s.provider.resetConversionCache symbolId).1 } := by
  obtain ⟨hinstruments, hfailures, hbySymbolId, -, hblocked⟩ :=
    resetConversionCache_tables s.provider symbolId
  constructor
  · refine ⟨h.known.account, h.known.calls, h.known.ended, ?_⟩
    intro key chain hchain
    exact h.known.chains key chain (resetConversionCache_chain hchain).1
  · intro name hname
    rw [hblocked] at hname
    unfold Provider.find
    rw [hinstruments, hfailures]
    split at hname
    · exact absurd hname (Finset.notMem_empty name)
    · exact h.sound name hname
  · intro hone
    have hindexed := h.indexed hone
    refine ⟨?_, ?_⟩
    · unfold Provider.find
      rw [hinstruments]
      exact hindexed.loaded
    · unfold Provider.find Provider.instrumentForSymbolId
      rw [hinstruments, hbySymbolId]
      exact hindexed.found

/-- A reset counts one generation more. -/
theorem Counted.reset (h : Counted s) (symbolId : Option ℤ) :
    Counted { s with provider := (s.provider.resetConversionCache symbolId).1 } := by
  obtain ⟨-, -, -, hqueries, -⟩ := resetConversionCache_tables s.provider symbolId
  refine ⟨hqueries.trans h.queries, h.created, ?_⟩
  intro task query hasking
  obtain ⟨hlt, hle⟩ := h.asking task query hasking
  exact ⟨hlt, hle.trans (resetConversionCache_generation s.provider symbolId).1⟩

/-- A removal leaves the queries. -/
theorem Counted.removeFailed (h : Counted s) (id : InstrumentId) (reason : String) :
    Counted { s with provider := s.provider.removeFailed id reason } := by
  obtain ⟨-, hgeneration, hqueries⟩ := removeFailed_chains s.provider id reason
  refine ⟨hqueries.trans h.queries, h.created, ?_⟩
  intro task query hasking
  rw [hgeneration]
  exact h.asking task query hasking

/-- Every step keeps both, and tells no failed lookup. -/
theorem step_keeps (settings : Settings) (hkept : Kept L s) (hcounted : Counted s)
    (hallowed : action.Allowed L) :
    let out := (machine settings).step s action
    Kept L out.1 ∧ Counted out.1 ∧
      ∀ told ∈ out.2, ∀ name, told.result ≠ .error (.keyError name) := by
  by_cases hturn : action.isTurn = true
  · have hout := step_turn settings hkept.known hkept.sound hallowed.lights hturn
    exact ⟨hkept.turn hout, hcounted.turn hout, hout.told⟩
  · cases action with
    | queryRuns task => exact ⟨hkept.queryRuns task, hcounted.queryRuns task, nofun⟩
    | queryEnds task outcome =>
      exact ⟨hkept.queryEnds task hallowed.lights, hcounted.queryEnds task outcome, nofun⟩
    | removeFailed id reason =>
      exact ⟨hkept.removeFailed (hallowed.own id reason rfl) reason, hcounted.removeFailed id reason,
        nofun⟩
    | resetConversionCache symbolId => exact ⟨hkept.reset symbolId, hcounted.reset symbolId, nofun⟩
    | _ => exact absurd rfl hturn

/-! ## Where chains come from -/

/-- What the actions from the start lead to. -/
def System.afterAll (settings : Settings) (actions : List Action) : System :=
  (machine settings).after {} actions

/-- A task has asked the venue for `query`, and has not ended; while no reset has raised the generation
it read, there was none. -/
def Asked (settings : Settings) (actions : List Action) (task : ℕ) (query : ChainQuery) : Prop :=
  ∃ before during, actions = before ++ .queryRuns task :: during ∧
    (System.afterAll settings before).created.get? task = some query.key ∧
    (∀ outcome, .queryEnds task outcome ∉ during) ∧
    (query.generation = (System.afterAll settings actions).provider.chainGeneration →
      ∀ symbolId, .resetConversionCache symbolId ∉ during)

/-- A chain is what the venue answered a query for its key, which asked after the last reset that
dropped the chain or could have made it stale: none came while the query waited, and none that drops
the chain since. -/
def Fresh (settings : Settings) (actions : List Action) (key : ChainKey)
    (chain : List ProtoOALightSymbol) : Prop :=
  ∃ before task during rest,
    actions = before ++ .queryRuns task :: (during ++ .queryEnds task (.answered chain) :: rest) ∧
    (System.afterAll settings before).created.get? task = some key ∧
    (∀ outcome, .queryEnds task outcome ∉ during) ∧
    (∀ symbolId, .resetConversionCache symbolId ∉ during) ∧
    ∀ symbolId, .resetConversionCache symbolId ∈ rest → Provider.resetDrops symbolId chain = false

variable {actions : List Action} {task : ℕ} {query : ChainQuery} {key : ChainKey}
  {chain : List ProtoOALightSymbol}

/-- One action more. -/
theorem afterAll_concat (settings : Settings) (actions : List Action) (action : Action) :
    System.afterAll settings (actions ++ [action]) =
      ((machine settings).step (System.afterAll settings actions) action).1 :=
  (machine settings).after_append {} actions [action]

/-- A chain stays fresh unless an action drops it. -/
theorem Fresh.concat (h : Fresh settings actions key chain)
    (hkeeps : ∀ symbolId, action = .resetConversionCache symbolId →
      Provider.resetDrops symbolId chain = false) :
    Fresh settings (actions ++ [action]) key chain := by
  obtain ⟨before, task, during, rest, rfl, hcreated, hends, hresets, hrest⟩ := h
  refine ⟨before, task, during, rest ++ [action], by simp, hcreated, hends, hresets, ?_⟩
  intro symbolId hreset
  rcases List.mem_append.mp hreset with hold | hlast
  · exact hrest symbolId hold
  · exact hkeeps symbolId (List.mem_singleton.mp hlast).symm

/-- A query goes on waiting through an action that does not end it. A reset raises the generation. -/
theorem Asked.concat (h : Asked settings actions task query)
    (hends : ∀ outcome, action ≠ .queryEnds task outcome)
    (hresets : query.generation =
        (System.afterAll settings (actions ++ [action])).provider.chainGeneration →
      query.generation = (System.afterAll settings actions).provider.chainGeneration ∧
        ∀ symbolId, action ≠ .resetConversionCache symbolId) :
    Asked settings (actions ++ [action]) task query := by
  obtain ⟨before, during, hsplit, hcreated, hwaits, hquiet⟩ := h
  refine ⟨before, during ++ [action], by simp [hsplit], hcreated, ?_, ?_⟩
  · intro outcome hmem
    rcases List.mem_append.mp hmem with hold | hlast
    · exact hwaits outcome hold
    · exact hends outcome (List.mem_singleton.mp hlast).symm
  · intro hcurrent symbolId hmem
    obtain ⟨hbefore, haction⟩ := hresets hcurrent
    rcases List.mem_append.mp hmem with hold | hlast
    · exact hquiet hbefore symbolId hold
    · exact haction symbolId (List.mem_singleton.mp hlast).symm

/-- The end of a query that waits since it asked caches what is fresh. -/
theorem Asked.fresh (h : Asked settings actions task query)
    (hcurrent : query.generation = (System.afterAll settings actions).provider.chainGeneration) :
    Fresh settings (actions ++ [.queryEnds task (.answered chain)]) query.key chain := by
  obtain ⟨before, during, hsplit, hcreated, hwaits, hquiet⟩ := h
  exact ⟨before, task, during, [], by simp [hsplit], hcreated, hwaits, hquiet hcurrent, nofun⟩

/-- Every query that waits has asked, and every chain that is cached is fresh. -/
structure Traced (settings : Settings) (actions : List Action) : Prop where
  asked : ∀ task query, (System.afterAll settings actions).asking.get? task = some query →
    Asked settings actions task query
  fresh : ∀ key chain, (System.afterAll settings actions).provider.chains.get? key = some chain →
    Fresh settings actions key chain

/-- An action that leaves the chains and the queries alone. -/
theorem Traced.concat (h : Traced settings actions)
    (hends : ∀ task outcome, action = .queryEnds task outcome →
      (System.afterAll settings actions).asking.get? task = none)
    (hresets : ∀ symbolId, action ≠ .resetConversionCache symbolId)
    (hasking : (System.afterAll settings (actions ++ [action])).asking =
      (System.afterAll settings actions).asking)
    (hchains : (System.afterAll settings (actions ++ [action])).provider.chains =
      (System.afterAll settings actions).provider.chains)
    (hgeneration : (System.afterAll settings (actions ++ [action])).provider.chainGeneration =
      (System.afterAll settings actions).provider.chainGeneration) :
    Traced settings (actions ++ [action]) := by
  constructor
  · intro task query hwaits
    rw [hasking] at hwaits
    refine (h.asked task query hwaits).concat ?_ ?_
    · intro outcome heq
      exact nomatch (hends task outcome heq).symm.trans hwaits
    · intro hcurrent
      exact ⟨hcurrent.trans hgeneration, hresets⟩
  · intro key chain hchain
    rw [hchains] at hchain
    refine (h.fresh key chain hchain).concat ?_
    intro symbolId heq
    exact absurd heq (hresets symbolId)

/-- A query that asks has asked since the last reset. -/
theorem Traced.queryRuns (h : Traced settings actions) (task : ℕ) :
    Traced settings (actions ++ [.queryRuns task]) := by
  have hstep := afterAll_concat settings actions (.queryRuns task)
  change _ = (System.afterAll settings actions).queryRuns task at hstep
  unfold System.queryRuns at hstep
  split at hstep
  · exact h.concat (by simp) (by simp) (by rw [hstep]) (by rw [hstep]) (by rw [hstep])
  · rename_i key hcreated
    constructor
    · intro other query hwaits
      rw [hstep] at hwaits
      rcases Dict.get?_set_eq_some.mp hwaits with ⟨rfl, rfl⟩ | ⟨-, hold⟩
      · -- it asks now, and nothing has come since
        exact ⟨actions, [], rfl, hcreated, by simp, by simp⟩
      · refine (h.asked other query hold).concat (by simp) ?_
        intro hcurrent
        rw [hstep] at hcurrent
        exact ⟨hcurrent, by simp⟩
    · intro otherKey chain hchain
      rw [hstep] at hchain
      exact (h.fresh otherKey chain hchain).concat (by simp)

/-- A chain that is cached has its query's answer. -/
theorem Traced.queryEnds (h : Traced settings actions) (task : ℕ) (outcome : QueryEnd) :
    Traced settings (actions ++ [.queryEnds task outcome]) := by
  have hstep := afterAll_concat settings actions (.queryEnds task outcome)
  change _ = (System.afterAll settings actions).queryEnds task outcome at hstep
  obtain ⟨query, chainTasks, chains, hasking, hcaches, hends⟩ | ⟨hnone, hends | hends⟩ :=
    queryEnds_cases (System.afterAll settings actions) task outcome
  · rw [hends] at hstep
    constructor
    · intro other found hwaits
      rw [hstep] at hwaits
      obtain ⟨hne, hold⟩ := Dict.get?_erase_eq_some.mp hwaits
      refine (h.asked other found hold).concat ?_ ?_
      · intro ending heq
        exact hne (Action.queryEnds.inj heq).1.symm
      · intro hcurrent
        rw [hstep] at hcurrent
        exact ⟨hcurrent, by simp⟩
    · intro key chain hchain
      rw [hstep] at hchain
      change chains.get? key = some chain at hchain
      obtain rfl | ⟨answer, rfl, -, hcurrent, rfl⟩ := hcaches
      · exact (h.fresh key chain hchain).concat (by simp)
      · rcases Dict.get?_set_eq_some.mp hchain with ⟨rfl, rfl⟩ | ⟨-, hold⟩
        · -- its generation still counts, so no reset came while it waited
          exact (h.asked task query hasking).fresh hcurrent
        · exact (h.fresh key chain hold).concat (by simp)
  · rw [hends] at hstep
    refine h.concat ?_ (by simp) (by rw [hstep]) (by rw [hstep]) (by rw [hstep])
    intro other ending heq
    rwa [← (Action.queryEnds.inj heq).1]
  · rw [hends] at hstep
    refine h.concat ?_ (by simp) (by rw [hstep]) (by rw [hstep]) (by rw [hstep])
    intro other ending heq
    rwa [← (Action.queryEnds.inj heq).1]

/-- A reset leaves the chains it does not drop. -/
theorem Traced.reset (h : Traced settings actions)
    (hcounted : Counted (System.afterAll settings actions)) (symbolId : Option ℤ) : Traced settings (actions ++ [.resetConversionCache symbolId]) := by
  have hstep := afterAll_concat settings actions (.resetConversionCache symbolId)
  obtain ⟨-, hraises⟩ :=
    resetConversionCache_generation (System.afterAll settings actions).provider symbolId
  constructor
  · intro task query hwaits
    rw [hstep] at hwaits
    refine (h.asked task query hwaits).concat nofun ?_
    intro hcurrent
    -- a query waits, so it is counted and the reset raises the generation
    have hwaiting : 0 < (System.afterAll settings actions).provider.chainQueries := by
      rw [hcounted.queries]
      exact Dict.size_pos hwaits
    have hle := (hcounted.asking task query hwaits).2
    rw [hstep] at hcurrent
    have hraised := hraises hwaiting
    have hcurrent' : query.generation = _ := hcurrent.trans hraised
    omega
  · intro key chain hchain
    rw [hstep] at hchain
    obtain ⟨hold, hkept⟩ := resetConversionCache_chain hchain
    refine (h.fresh key chain hold).concat ?_
    intro other heq
    rwa [← Action.resetConversionCache.inj heq]

/-- Every allowed action keeps chains fresh. -/
theorem Traced.step (h : Traced settings actions) (hkept : Kept L (System.afterAll settings actions))
    (hcounted : Counted (System.afterAll settings actions)) (hallowed : action.Allowed L) :
    Traced settings (actions ++ [action]) := by
  have hstep := afterAll_concat settings actions action
  by_cases hturn : action.isTurn = true
  · have hout := step_turn settings hkept.known hkept.sound hallowed.lights hturn
    obtain ⟨hchains, hgeneration, -⟩ := hout.moves.chains
    refine h.concat ?_ ?_ ?_ ?_ ?_
    · rintro task outcome rfl
      exact nomatch hturn
    · rintro symbolId rfl
      exact nomatch hturn
    · rw [hstep, hout.asking]
    · rw [hstep, hchains]
    · rw [hstep, hgeneration]
  · cases action with
    | queryRuns task => exact h.queryRuns task
    | queryEnds task outcome => exact h.queryEnds task outcome
    | removeFailed id reason =>
      obtain ⟨hchains, hgeneration, -⟩ :=
        removeFailed_chains (System.afterAll settings actions).provider id reason
      refine h.concat nofun nofun ?_ ?_ ?_
      · rw [hstep]
        rfl
      · rw [hstep]
        exact hchains
      · rw [hstep]
        exact hgeneration
    | resetConversionCache symbolId => exact h.reset hcounted symbolId
    | _ => exact absurd rfl hturn

/-! ## Every run -/

/-- What holds after every run from the start in which what is allowed happens. -/
theorem run_keeps (settings : Settings) (hallowed : ∀ action ∈ actions, action.Allowed L) :
    Kept L (System.afterAll settings actions) ∧ Counted (System.afterAll settings actions) ∧
      Traced settings actions ∧
      ∀ told ∈ (machine settings).told {} actions, ∀ name, told.result ≠ .error (.keyError name) := by
  induction actions using List.reverseRecOn with
  | nil =>
    refine ⟨⟨⟨nofun, nofun, nofun, nofun⟩, ?_, fun _ => ⟨nofun, nofun⟩⟩, ⟨rfl, nofun, nofun⟩,
      ⟨nofun, nofun⟩, nofun⟩
    intro name hname
    exact absurd hname (Finset.notMem_empty name)
  | append_singleton actions action ih =>
    obtain ⟨hkept, hcounted, htraced, htold⟩ :=
      ih fun other hother => hallowed other (List.mem_append_left _ hother)
    have hlast := hallowed action (List.mem_append_right _ (List.mem_singleton_self action))
    obtain ⟨hkept', hcounted', htold'⟩ := step_keeps settings hkept hcounted hlast
    rw [afterAll_concat]
    refine ⟨hkept', hcounted', htraced.step hkept hcounted hlast, ?_⟩
    intro told hmem
    rw [Machine.told_append, Machine.told_cons, Machine.told_nil, List.append_nil] at hmem
    rcases List.mem_append.mp hmem with hold | hnew
    · exact htold told hold
    · exact htold' told hnew

/-- A block goes when its name is requested, or with a full reset. -/
theorem step_blocked (hkept : Kept L s) (hallowed : action.Allowed L) {name : String}
    (hblocked : name ∈ s.provider.blocked) (hrequests : name ∉ action.requests)
    (hreset : action ≠ .resetConversionCache none) :
    name ∈ ((machine settings).step s action).1.provider.blocked := by
  by_cases hturn : action.isTurn = true
  · have hout := step_turn settings hkept.known hkept.sound hallowed.lights hturn
    exact hout.moves.blocked hblocked hrequests
  · cases action with
    | queryRuns task =>
      show name ∈ (s.queryRuns task).provider.blocked
      unfold System.queryRuns
      split <;> exact hblocked
    | queryEnds task outcome =>
      show name ∈ (s.queryEnds task outcome).provider.blocked
      obtain ⟨query, chainTasks, chains, -, -, hends⟩ | ⟨-, hends | hends⟩ :=
        queryEnds_cases s task outcome <;> (rw [hends]; exact hblocked)
    | removeFailed id reason =>
      show name ∈ (s.provider.removeFailed id reason).blocked
      rw [removeFailed_blocked]
      exact Finset.mem_insert_of_mem hblocked
    | resetConversionCache symbolId =>
      show name ∈ (s.provider.resetConversionCache symbolId).1.blocked
      obtain ⟨-, -, -, -, htables⟩ := resetConversionCache_tables s.provider symbolId
      rw [htables]
      cases symbolId with
      | none => exact absurd rfl hreset
      | some symbolId => exact hblocked
    | _ => exact absurd rfl hturn

/-- A name stays blocked until it is requested again or all chains are reset. -/
theorem stays_blocked {name : String} {rest : List Action}
    (hallowed : ∀ action ∈ actions ++ rest, action.Allowed L)
    (hblocked : name ∈ (System.afterAll settings actions).provider.blocked)
    (hrest : ∀ action ∈ rest, name ∉ action.requests ∧ action ≠ .resetConversionCache none) :
    name ∈ (System.afterAll settings (actions ++ rest)).provider.blocked := by
  induction rest using List.reverseRecOn with
  | nil => rwa [List.append_nil]
  | append_singleton rest action ih =>
    rw [← List.append_assoc] at hallowed ⊢
    have hearlier : ∀ other ∈ actions ++ rest, other.Allowed L := fun other hother =>
      hallowed other (List.mem_append_left _ hother)
    have hkept := (run_keeps settings hearlier).1
    obtain ⟨hrequests, hreset⟩ :=
      hrest action (List.mem_append_right _ (List.mem_singleton_self action))
    rw [afterAll_concat]
    refine step_blocked hkept (hallowed action ?_) (ih hearlier ?_) hrequests hreset
    · exact List.mem_append_right _ (List.mem_singleton_self action)
    · intro other hother
      exact hrest other (List.mem_append_left _ hother)

/-- The symbols the venue sends in a run. -/
def sent (actions : List Action) : Set ProtoOALightSymbol :=
  {light | ∃ action ∈ actions, light ∈ action.lights}

/-- In every run in which only the adapter's own instruments are removed: a cached chain is fresh; a
blocked symbol is not loaded and is among the failures, nor is it found by a symbol id where the venue
gives a name one id; a removed one stays blocked until it is requested or all chains are reset; and no
call looks up a failure that is missing.

`hown` is what the only caller does: the data client passes the id of an instrument of this provider,
whose chain it has just asked for. -/
theorem chains_fresh_blocked_out (settings : Settings) (actions : List Action)
    (hown : ∀ id reason, .removeFailed id reason ∈ actions → id.venue = ctraderVenue) :
    let provider := (System.afterAll settings actions).provider
    (∀ key chain, provider.chains.get? key = some chain → Fresh settings actions key chain) ∧
      (∀ name ∈ provider.blocked, provider.find (instrumentIdOf name) = none ∧
        (provider.failures.get? name).isSome = true) ∧
      (OneId (sent actions) → ∀ symbolId instrument,
        provider.instrumentForSymbolId symbolId = some instrument →
          instrument.id.symbol ∉ provider.blocked) ∧
      (∀ before id reason rest, actions = before ++ .removeFailed id reason :: rest →
        (∀ action ∈ rest, id.symbol ∉ action.requests ∧ action ≠ .resetConversionCache none) →
          id.symbol ∈ provider.blocked) ∧
      ∀ told ∈ (machine settings).told {} actions, ∀ name,
        told.result ≠ .error (.keyError name) := by
  have hallowed : ∀ action ∈ actions, action.Allowed (sent actions) := by
    intro action haction
    constructor
    · intro light hlight
      exact ⟨action, haction, hlight⟩
    · rintro id reason rfl
      exact hown id reason haction
  obtain ⟨hkept, -, htraced, htold⟩ := run_keeps settings hallowed
  refine ⟨htraced.fresh, hkept.sound, ?_, ?_, htold⟩
  · intro hone symbolId instrument hfound hblocked
    obtain ⟨hloaded, light, -, hid, -⟩ := (hkept.indexed hone).found symbolId instrument hfound
    obtain ⟨hfind, -⟩ := hkept.sound _ hblocked
    rw [hid] at hloaded hfind
    rw [show instrumentIdOf (instrumentIdOf light.symbolName).symbol =
      instrumentIdOf light.symbolName from rfl] at hfind
    rw [hfind] at hloaded
    exact nomatch hloaded
  · rintro before id reason rest rfl hrest
    have hsplit : before ++ Action.removeFailed id reason :: rest =
        before ++ [Action.removeFailed id reason] ++ rest := by
      simp
    rw [hsplit] at hallowed ⊢
    refine stays_blocked hallowed ?_ hrest
    rw [afterAll_concat]
    show id.symbol ∈ Provider.blocked (Provider.removeFailed _ id reason)
    rw [removeFailed_blocked]
    exact Finset.mem_insert_self _ _

/-- A Nautilus that refuses nothing. -/
def accepting : Settings where
  nautilus :=
    { currency := fun code => some ⟨code, .fiat⟩
      symbol := fun _ => .ok ()
      price := fun _ => .ok ()
      quantity := fun _ _ => .ok ()
      instrument := fun _ => .ok () }
  failOnInstrumentError := false

def eurusd : ProtoOALightSymbol := ⟨1, "EURUSD", 10, 11⟩

/-- A pair is loaded and its chain asked for, and then it is removed. -/
def removedPair : List Action :=
  [.connected true, .referenceData [eurusd] [⟨10, "EUR"⟩, ⟨11, "USD"⟩] 10,
    .loadIds [instrumentIdOf "EURUSD"],
    .resumeSpecs 0 (some (Dict.empty.set 1 { symbolId := 1, digits := 5, stepVolume := some 100000 })),
    .conversionInstrumentsFor (instrumentIdOf "EURUSD"), .queryRuns 0, .queryEnds 0 (.answered [eurusd]),
    .resumeChain 1, .removeFailed (instrumentIdOf "EURUSD") "conversion failed", .loadAll,
    .resumeSpecs 2 (some Dict.empty)]

/-- Its chain stays cached, and a load of everything leaves it out. -/
theorem removedPair_fresh :
    let provider := (System.afterAll accepting removedPair).provider
    provider.chains.get? (11, 10) = some [eurusd] ∧ Fresh accepting removedPair (11, 10) [eurusd] ∧
      "EURUSD" ∈ provider.blocked ∧ provider.find (instrumentIdOf "EURUSD") = none := by
  have hown : ∀ id reason, Action.removeFailed id reason ∈ removedPair → id.venue = ctraderVenue := by
    intro id reason hmem
    simp only [removedPair, List.mem_cons, List.not_mem_nil, reduceCtorEq, false_or, or_false,
      Action.removeFailed.injEq] at hmem
    rw [hmem.1]
    rfl
  obtain ⟨hfresh, hout, -⟩ := chains_fresh_blocked_out accepting removedPair hown
  have hchain : (System.afterAll accepting removedPair).provider.chains.get? (11, 10) =
      some [eurusd] := by
    decide +kernel
  have hblocked : "EURUSD" ∈ (System.afterAll accepting removedPair).provider.blocked := by
    decide +kernel
  exact ⟨hchain, hfresh _ _ hchain, hblocked, (hout _ hblocked).1⟩

end Instruments

end NautilusCtrader
