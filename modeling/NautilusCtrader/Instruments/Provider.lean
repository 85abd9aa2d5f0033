import Mathlib.Data.Finset.Insert
import Mathlib.Data.Finset.SDiff
import NautilusCtrader.Common.Machine
import NautilusCtrader.Instruments.Symbols

/-!
# The instrument provider

Loads, reloads and conversion chains share the provider's tables and interleave at their awaits: a load
waits for its symbols' specs, a caller of `conversion_instruments_for` for the query of its chain and
then for the specs of the missing legs. A query is a task of its own, shared by the callers that need
its chain, and reads the generation of the chains when it first runs. `machine` lets any call begin or
resume, any query run or end, and the chains be reset, in any order; what the account and the venue
answer is open.
-/

namespace NautilusCtrader

open Common

namespace Instruments

/-! ## The provider's tables -/

/-- Why a symbol is among the failures. -/
inductive FailureReason
  | notCtrader
  | notOffered
  | build (error : BuildError)
  /-- The reason `remove_failed` was given. -/
  | removed (reason : String)
deriving DecidableEq, Repr

structure InstrumentLoadFailure where
  symbol : String
  reason : FailureReason
deriving DecidableEq, Repr

/-- How a call fails. -/
inductive CallError
  /-- `CTraderConnectionError` before anything is asked. -/
  | notConnected
  | noReferenceData
  /-- `InstrumentLoadError`, in its kinds. -/
  | notLoaded (id : InstrumentId)
  | noChain
  | notRequestedAgain (name : String)
  | build (error : BuildError)
  | failedToLoad (count : ℕ)
  | notOffered (symbolId : ℤ)
  /-- The error of a request. -/
  | request
  | cancelled
  /-- A lookup in `failures` that misses. -/
  | keyError (name : String)
  | uncaught (error : BuildError)
deriving DecidableEq, Repr

/-- Whether it is an `InstrumentLoadError`. -/
def CallError.isLoadError : CallError → Bool
  | .notLoaded _ | .noChain | .notRequestedAgain _ | .build _ | .failedToLoad _ | .notOffered _ => true
  | _ => false

/-- The assets a chain leads from and to. -/
abbrev ChainKey := ℤ × ℤ

/-- `CTraderInstrumentProvider`. -/
structure Provider where
  instruments : Dict InstrumentId Instrument := Dict.empty
  failures : Dict String InstrumentLoadFailure := Dict.empty
  bySymbolId : Dict ℤ Instrument := Dict.empty
  quoteAssetId : Dict InstrumentId ℤ := Dict.empty
  chains : Dict ChainKey (List ProtoOALightSymbol) := Dict.empty
  chainGeneration : ℕ := 0
  /-- The queries that await the venue. -/
  chainQueries : ℕ := 0
  chainTasks : Dict ChainKey ℕ := Dict.empty
  blocked : Finset String := ∅

namespace Provider

variable (p : Provider)

def find (id : InstrumentId) : Option Instrument := p.instruments.get? id

def instrumentForSymbolId (symbolId : ℤ) : Option Instrument := p.bySymbolId.get? symbolId

/-- `_record_failure`. -/
def recordFailure (symbol : String) (reason : FailureReason) : Provider :=
  { p with failures := p.failures.set symbol ⟨symbol, reason⟩ }

/-- `_finish_load`. -/
def finishLoad (instrument : Instrument) (light : ProtoOALightSymbol) : Provider :=
  { p with
    instruments := p.instruments.set instrument.id instrument
    bySymbolId := p.bySymbolId.set instrument.symbolId instrument
    quoteAssetId := p.quoteAssetId.set instrument.id light.quoteAssetId
    failures := p.failures.erase light.symbolName }

/-- What `_build_or_fail` tries. -/
def buildSpec (nautilus : Nautilus) (assets : Dict ℤ ProtoOAAsset) (spec : Option ProtoOASymbol)
    (light : ProtoOALightSymbol) : Except BuildError Instrument :=
  match spec with
  | none => .error (.noSpec light.symbolName)
  | some spec => instrumentFromSymbol nautilus spec light assets

/-- `_build_or_fail`. -/
def buildOrFail (nautilus : Nautilus) (assets : Dict ℤ ProtoOAAsset) (spec : Option ProtoOASymbol)
    (light : ProtoOALightSymbol) (recordsFailure : Bool := true) :
    Provider × Except CallError Instrument :=
  let name := light.symbolName
  if name ∈ p.blocked then (p, .error (.notRequestedAgain name))
  else
    match buildSpec nautilus assets spec light with
    | .ok instrument => (p.finishLoad instrument light, .ok instrument)
    | .error error =>
      if error.caught then
        (if recordsFailure then p.recordFailure name (.build error) else p, .error (.build error))
      else (p, .error (.uncaught error))

/-- The loop of `_load_names` over the symbols that are offered. -/
def loadLights (nautilus : Nautilus) (assets : Dict ℤ ProtoOAAsset) (specs : Dict ℤ ProtoOASymbol)
    (p : Provider) : List ProtoOALightSymbol → Provider × Except CallError (List InstrumentLoadFailure)
  | [] => (p, .ok [])
  | light :: rest =>
    match p.buildOrFail nautilus assets (specs.get? light.symbolId) light with
    | (p, .ok _) => loadLights nautilus assets specs p rest
    | (p, .error error) =>
      if error.isLoadError then
        match p.failures.get? light.symbolName with
        | none => (p, .error (.keyError light.symbolName))
        | some failure =>
          let (p, loaded) := loadLights nautilus assets specs p rest
          (p, loaded.map (failure :: ·))
      else (p, .error error)

/-- The loop of `conversion_instruments_for` over the legs of its chain. -/
def buildLegs (nautilus : Nautilus) (assets : Dict ℤ ProtoOAAsset) (specs : Dict ℤ ProtoOASymbol)
    (p : Provider) : List ProtoOALightSymbol → Provider × Except CallError (List Instrument)
  | [] => (p, .ok [])
  | leg :: rest =>
    match p.instrumentForSymbolId leg.symbolId with
    | some existing =>
      let (p, built) := buildLegs nautilus assets specs p rest
      (p, built.map (existing :: ·))
    | none =>
      match p.buildOrFail nautilus assets (specs.get? leg.symbolId) leg with
      | (p, .error error) => (p, .error error)
      | (p, .ok instrument) =>
        let (p, built) := buildLegs nautilus assets specs p rest
        (p, built.map (instrument :: ·))

/-- The legs that are not loaded. -/
def missing (chain : List ProtoOALightSymbol) : List ProtoOALightSymbol :=
  chain.filter fun leg => (p.instrumentForSymbolId leg.symbolId).isNone

/-- `remove_failed`. -/
def removeFailed (id : InstrumentId) (reason : String) : Provider :=
  let p := { p with blocked := insert id.symbol p.blocked }
  let p :=
    match p.instruments.get? id with
    | none => p
    | some instrument =>
      { p with
        instruments := p.instruments.erase id
        bySymbolId := p.bySymbolId.erase instrument.symbolId
        quoteAssetId := p.quoteAssetId.erase id }
  p.recordFailure id.symbol (.removed reason)

/-- Whether a reset of `symbolId`'s chains, or of all, drops `chain`. -/
def resetDrops (symbolId : Option ℤ) (chain : List ProtoOALightSymbol) : Bool :=
  symbolId.all fun symbolId => chain.any (·.symbolId = symbolId)

/-- The chains a reset drops. -/
def stale (symbolId : Option ℤ) : List ChainKey :=
  (p.chains.entries.filter fun entry => resetDrops symbolId entry.2).map Prod.fst

/-- `reset_conversion_cache`. -/
def resetConversionCache (symbolId : Option ℤ) : Provider × Bool :=
  let stale := p.stale symbolId
  let p := { p with chains := stale.foldl Dict.erase p.chains }
  let p :=
    if symbolId.isNone || stale ≠ [] || p.chainQueries ≠ 0 then
      { p with chainGeneration := p.chainGeneration + 1, chainTasks := Dict.empty }
    else p
  let p := if symbolId.isNone then { p with blocked := ∅ } else p
  (p, stale ≠ [])

end Provider

/-! ## The account, the calls and the queries -/

/-- What the provider reads of its account. -/
structure Account where
  connected : Bool := false
  lightSymbols : Dict String ProtoOALightSymbol := Dict.empty
  assets : Dict ℤ ProtoOAAsset := Dict.empty
  depositAsset : Option ProtoOAAsset := none

/-- `_load_reference_data`, once the venue has answered. -/
def Account.loadReferenceData (account : Account) (symbols : List ProtoOALightSymbol)
    (assets : List ProtoOAAsset) (depositAssetId : ℤ) : Account :=
  let assets := assets.foldl (fun found asset => found.set asset.assetId asset) Dict.empty
  match assets.get? depositAssetId with
  | none => account
  | some deposit =>
    { account with
      lightSymbols := symbols.foldl (fun found light => found.set light.symbolName light) Dict.empty
      assets
      depositAsset := some deposit }

/-- A call that awaits something. -/
inductive Call
  /-- `_load_names` waits for the specs, with the failures so far. -/
  | load (lights : List ProtoOALightSymbol) (failures : List InstrumentLoadFailure)
  | reload (light : ProtoOALightSymbol)
  /-- `conversion_instruments_for` waits for its query. -/
  | chain (task : ℕ)
  /-- `conversion_instruments_for` waits for the specs of its missing legs. -/
  | legs (chain : List ProtoOALightSymbol)
deriving DecidableEq, Repr

/-- A query that awaits the venue, with the generation it read. -/
structure ChainQuery where
  key : ChainKey
  generation : ℕ
deriving DecidableEq, Repr

/-- How a query ends. -/
inductive QueryEnd
  | answered (chain : List ProtoOALightSymbol)
  | failed
  | cancelled
deriving DecidableEq, Repr

/-- What the provider is built with. -/
structure Settings where
  nautilus : Nautilus
  failOnInstrumentError : Bool

/-- The provider with its account, its calls and the tasks of its queries. -/
structure System where
  provider : Provider := {}
  account : Account := {}
  calls : Dict ℕ Call := Dict.empty
  nextCall : ℕ := 0
  /-- The queries whose task has not run yet. -/
  created : Dict ℕ ChainKey := Dict.empty
  asking : Dict ℕ ChainQuery := Dict.empty
  ended : Dict ℕ QueryEnd := Dict.empty
  nextTask : ℕ := 0

/-- What is told of a call: how it ended. -/
structure Told where
  call : ℕ
  result : Except CallError (List Instrument)

namespace System

variable (settings : Settings) (s : System)

/-- A new call ends without an await. -/
def endNow (result : Except CallError (List Instrument)) : System × List Told :=
  ({ s with nextCall := s.nextCall + 1 }, [⟨s.nextCall, result⟩])

/-- A new call is suspended. -/
def suspend (call : Call) : System × List Told :=
  ({ s with calls := s.calls.set s.nextCall call, nextCall := s.nextCall + 1 }, [])

/-- A suspended call ends. -/
def endCall (id : ℕ) (result : Except CallError (List Instrument)) : System × List Told :=
  ({ s with calls := s.calls.erase id }, [⟨id, result⟩])

/-- `_raise_if_configured`. -/
def raiseIfConfigured (failures : List InstrumentLoadFailure) :
    Except CallError (List Instrument) :=
  if settings.failOnInstrumentError && failures ≠ [] then .error (.failedToLoad failures.length)
  else .ok []

/-- `_load_names` looks its names up: the failures it records, and the symbols it finds. -/
def lookUpNames (lightSymbols : Dict String ProtoOALightSymbol) (p : Provider)
    (failures : List InstrumentLoadFailure) (lights : Dict String ProtoOALightSymbol) :
    List String → Provider × List InstrumentLoadFailure × Dict String ProtoOALightSymbol
  | [] => (p, failures, lights)
  | name :: rest =>
    match lightSymbols.get? name with
    | none =>
      lookUpNames lightSymbols (p.recordFailure name .notOffered) (failures ++ [⟨name, .notOffered⟩])
        lights rest
    | some light => lookUpNames lightSymbols p failures (lights.set name light) rest

/-- `_load_names` up to its await, after the failures its caller has found. -/
def loadNames (names : List String) (failures : List InstrumentLoadFailure) : System × List Told :=
  if names = [] then s.endNow (raiseIfConfigured settings failures)
  else
    let (p, failures, lights) :=
      lookUpNames s.account.lightSymbols s.provider failures Dict.empty names
    { s with provider := p }.suspend (.load lights.values failures)

/-- `load_all_async`. -/
def loadAll : System × List Told :=
  if s.account.connected then s.loadNames settings s.account.lightSymbols.keys []
  else s.endNow (.error .notConnected)

/-- The ids of another venue among those requested, each recorded as a failure. -/
def refuseForeign (p : Provider) : List InstrumentId → Provider × List InstrumentLoadFailure
  | [] => (p, [])
  | id :: rest =>
    if id.venue ≠ ctraderVenue then
      let (p, failures) := refuseForeign (p.recordFailure id.symbol .notCtrader) rest
      (p, ⟨id.symbol, .notCtrader⟩ :: failures)
    else refuseForeign p rest

/-- The names requested. -/
def requestedNames (ids : List InstrumentId) : List String :=
  (ids.filter fun id => id.venue = ctraderVenue).map InstrumentId.symbol

/-- `load_ids_async`. -/
def loadIds (ids : List InstrumentId) : System × List Told :=
  if !s.account.connected then s.endNow (.error .notConnected)
  else if ids = [] then s.endNow (.ok [])
  else
    let (p, failures) := refuseForeign s.provider ids
    let names := requestedNames ids
    let p := { p with blocked := p.blocked \ names.toFinset }
    { s with provider := p }.loadNames settings names failures

/-- `reload` up to its await. -/
def reload (symbolId : ℤ) : System × List Told :=
  if !s.account.connected then s.endNow (.error .notConnected)
  else
    match s.account.lightSymbols.values.find? (·.symbolId = symbolId) with
    | none => s.endNow (.error (.notOffered symbolId))
    | some light => s.suspend (.reload light)

/-- `_chain_query`: the task of the query for a key. -/
def chainQuery (key : ChainKey) : System × ℕ :=
  match s.provider.chainTasks.get? key with
  | some task => (s, task)
  | none =>
    ({ s with
        provider := { s.provider with chainTasks := s.provider.chainTasks.set key s.nextTask }
        created := s.created.set s.nextTask key
        nextTask := s.nextTask + 1 }, s.nextTask)

/-- The legs are built with the specs at hand. -/
def finishLegs (specs : Dict ℤ ProtoOASymbol) (chain : List ProtoOALightSymbol) :
    System × Except CallError (List Instrument) :=
  let (p, built) := s.provider.buildLegs settings.nautilus s.account.assets specs chain
  ({ s with provider := p }, built)

/-- `conversion_instruments_for` up to its first await. -/
def conversionInstrumentsFor (id : InstrumentId) : System × List Told :=
  if !s.account.connected then s.endNow (.error .notConnected)
  else
    match s.provider.quoteAssetId.get? id with
    | none => s.endNow (.error (.notLoaded id))
    | some quoteAssetId =>
      match s.account.depositAsset with
      | none => s.endNow (.error .noReferenceData)
      | some deposit =>
        if quoteAssetId = deposit.assetId then s.endNow (.ok [])
        else
          let key := (quoteAssetId, deposit.assetId)
          match s.provider.chains.get? key with
          | none =>
            let (s, task) := s.chainQuery key
            s.suspend (.chain task)
          | some chain =>
            if s.provider.missing chain = [] then
              let (s, built) := s.finishLegs settings Dict.empty chain
              s.endNow built
            else s.suspend (.legs chain)

/-- `conversion_instruments_for` resumes once its query is done. -/
def resumeChain (id : ℕ) : System × List Told :=
  match s.calls.get? id with
  | some (.chain task) =>
    match s.ended.get? task with
    | none => (s, [])
    | some .failed => s.endCall id (.error .request)
    | some .cancelled => s.endCall id (.error .cancelled)
    | some (.answered chain) =>
      if chain = [] then s.endCall id (.error .noChain)
      else if s.provider.missing chain = [] then
        let (s, built) := s.finishLegs settings Dict.empty chain
        s.endCall id built
      else ({ s with calls := s.calls.set id (.legs chain) }, [])
  | _ => (s, [])

/-- A call resumes with the specs it awaited, or with the error of their request. -/
def resumeSpecs (id : ℕ) (answer : Option (Dict ℤ ProtoOASymbol)) : System × List Told :=
  match s.calls.get? id, answer with
  | some (.load _ _), none | some (.reload _), none | some (.legs _), none =>
    s.endCall id (.error .request)
  | some (.load lights failures), some specs =>
    let (p, loaded) := s.provider.loadLights settings.nautilus s.account.assets specs lights
    let s := { s with provider := p }
    match loaded with
    | .error error => s.endCall id (.error error)
    | .ok more => s.endCall id (raiseIfConfigured settings (failures ++ more))
  | some (.reload light), some specs =>
    let (p, built) := s.provider.buildOrFail settings.nautilus s.account.assets
      (specs.get? light.symbolId) light false
    { s with provider := p }.endCall id (built.map ([·]))
  | some (.legs chain), some specs =>
    let (s, built) := s.finishLegs settings specs chain
    s.endCall id built
  | _, _ => (s, [])

/-- A suspended call is cancelled; a query it waits for goes on. -/
def cancelCall (id : ℕ) : System × List Told :=
  match s.calls.get? id with
  | none => (s, [])
  | some _ => s.endCall id (.error .cancelled)

/-- `_query_chain` runs up to its await. -/
def queryRuns (task : ℕ) : System :=
  match s.created.get? task with
  | none => s
  | some key =>
    { s with
      provider := { s.provider with chainQueries := s.provider.chainQueries + 1 }
      created := s.created.erase task
      asking := s.asking.set task ⟨key, s.provider.chainGeneration⟩ }

/-- `_query_chain` from its await on. A task that is cancelled before it ran does nothing. -/
def queryEnds (task : ℕ) (outcome : QueryEnd) : System :=
  match s.asking.get? task with
  | some query =>
    let p := s.provider
    let p :=
      { p with
        chainQueries := p.chainQueries - 1
        chainTasks :=
          if p.chainTasks.get? query.key = some task then p.chainTasks.erase query.key
          else p.chainTasks }
    let p :=
      match outcome with
      | .answered chain =>
        if chain ≠ [] ∧ query.generation = p.chainGeneration then
          { p with chains := p.chains.set query.key chain }
        else p
      | _ => p
    { s with provider := p, asking := s.asking.erase task, ended := s.ended.set task outcome }
  | none =>
    match s.created.get? task, outcome with
    | some _, .cancelled =>
      { s with created := s.created.erase task, ended := s.ended.set task .cancelled }
    | _, _ => s

end System

/-! ## Runs -/

/-- Everything that can happen. -/
inductive Action
  | connected (connected : Bool)
  | referenceData (symbols : List ProtoOALightSymbol) (assets : List ProtoOAAsset)
      (depositAssetId : ℤ)
  | loadAll
  | loadIds (ids : List InstrumentId)
  | reload (symbolId : ℤ)
  | conversionInstrumentsFor (id : InstrumentId)
  | resumeChain (call : ℕ)
  | resumeSpecs (call : ℕ) (answer : Option (Dict ℤ ProtoOASymbol))
  | cancelCall (call : ℕ)
  | queryRuns (task : ℕ)
  | queryEnds (task : ℕ) (outcome : QueryEnd)
  | removeFailed (id : InstrumentId) (reason : String)
  | resetConversionCache (symbolId : Option ℤ)

/-- The provider as a machine; it tells how the calls end. -/
def machine (settings : Settings) : Machine System Action Told where
  step s
    | .connected connected => ({ s with account := { s.account with connected } }, [])
    | .referenceData symbols assets depositAssetId =>
      ({ s with account := s.account.loadReferenceData symbols assets depositAssetId }, [])
    | .loadAll => s.loadAll settings
    | .loadIds ids => s.loadIds settings ids
    | .reload symbolId => s.reload symbolId
    | .conversionInstrumentsFor id => s.conversionInstrumentsFor settings id
    | .resumeChain call => s.resumeChain settings call
    | .resumeSpecs call answer => s.resumeSpecs settings call answer
    | .cancelCall call => s.cancelCall call
    | .queryRuns task => (s.queryRuns task, [])
    | .queryEnds task outcome => (s.queryEnds task outcome, [])
    | .removeFailed id reason => ({ s with provider := s.provider.removeFailed id reason }, [])
    | .resetConversionCache symbolId =>
      ({ s with provider := (s.provider.resetConversionCache symbolId).1 }, [])

end Instruments

end NautilusCtrader
