import Mathlib.Data.Set.Defs
import Mathlib.Logic.Relation
import NautilusCtrader.Instruments.Provider

/-!
# What the provider's calls change

Between two awaits a call makes a series of small moves on the provider: it records failures, loads
instruments that are not blocked, lifts the block of the names it was asked for, and shares its queries.
None of them touches the cached chains or their generation. A name that is blocked is not loaded and is
among the failures (`Sound`), so no call looks up a failure that is missing.
-/

namespace NautilusCtrader

open Common

namespace Instruments

/-! ## Moves -/

/-- A move of a call that was asked for `names`; `L` holds the symbols the venue has sent. -/
inductive Move (L : Set ProtoOALightSymbol) (names : List String) : Provider → Provider → Prop
  | recordFailure (p : Provider) (symbol : String) (reason : FailureReason) :
    Move L names p (p.recordFailure symbol reason)
  | finishLoad (p : Provider) (instrument : Instrument) (light : ProtoOALightSymbol)
      (hlight : light ∈ L) (hid : instrument.id = instrumentIdOf light.symbolName)
      (hsymbol : instrument.symbolId = light.symbolId) (hallowed : light.symbolName ∉ p.blocked) :
    Move L names p (p.finishLoad instrument light)
  | unblock (p : Provider) : Move L names p { p with blocked := p.blocked \ names.toFinset }
  | share (p : Provider) (chainTasks : Dict ChainKey ℕ) : Move L names p { p with chainTasks }

/-- Several moves, one after another. -/
abbrev Moves (L : Set ProtoOALightSymbol) (names : List String) : Provider → Provider → Prop :=
  Relation.ReflTransGen (Move L names)

variable {L : Set ProtoOALightSymbol} {names : List String} {p p' : Provider}

/-- The symbols the venue sends are named once. -/
def OneId (L : Set ProtoOALightSymbol) : Prop :=
  ∀ light ∈ L, ∀ light' ∈ L, light.symbolName = light'.symbolName → light.symbolId = light'.symbolId

/-- A blocked name is not loaded and is among the failures. -/
def Sound (p : Provider) : Prop :=
  ∀ name ∈ p.blocked, p.find (instrumentIdOf name) = none ∧ (p.failures.get? name).isSome = true

/-- What is found by symbol id is loaded under its own name, and is one of `L`. -/
structure Indexed (L : Set ProtoOALightSymbol) (p : Provider) : Prop where
  loaded : ∀ id instrument, p.find id = some instrument → ∃ light ∈ L,
    id = instrumentIdOf light.symbolName ∧ instrument.symbolId = light.symbolId
  found : ∀ symbolId instrument, p.instrumentForSymbolId symbolId = some instrument →
    (p.find instrument.id).isSome = true ∧
      ∃ light ∈ L, instrument.id = instrumentIdOf light.symbolName ∧ light.symbolId = symbolId

/-- Two names have two ids. -/
theorem instrumentIdOf_injective {name name' : String} (h : instrumentIdOf name = instrumentIdOf name') :
    name = name' :=
  congrArg InstrumentId.symbol h

/-- The moves leave the chains alone. -/
theorem Moves.chains (h : Moves L names p p') : p'.chains = p.chains ∧
    p'.chainGeneration = p.chainGeneration ∧ p'.chainQueries = p.chainQueries := by
  induction h with
  | refl => exact ⟨rfl, rfl, rfl⟩
  | tail _ hmove ih =>
    cases hmove with
    | recordFailure => exact ih
    | finishLoad => exact ih
    | unblock => exact ih
    | share => exact ih

/-- Only the names asked for are unblocked. -/
theorem Moves.blocked (h : Moves L names p p') {name : String} (hname : name ∈ p.blocked)
    (hasked : name ∉ names) : name ∈ p'.blocked := by
  induction h with
  | refl => exact hname
  | tail _ hmove ih =>
    cases hmove with
    | recordFailure => exact ih
    | finishLoad => exact ih
    | unblock => exact Finset.mem_sdiff.mpr ⟨ih, fun h => hasked (List.mem_toFinset.mp h)⟩
    | share => exact ih

/-- A failure is recorded. -/
theorem Sound.recordFailure (h : Sound p) (symbol : String) (reason : FailureReason) :
    Sound (p.recordFailure symbol reason) := by
  intro name hname
  obtain ⟨hfind, hfailure⟩ := h name hname
  refine ⟨hfind, ?_⟩
  show ((p.failures.set symbol _).get? name).isSome = true
  rw [Dict.get?_set]
  split
  · rfl
  · exact hfailure

/-- An instrument is loaded under a name that is not blocked. -/
theorem Sound.finishLoad (h : Sound p) {instrument : Instrument} {light : ProtoOALightSymbol}
    (hid : instrument.id = instrumentIdOf light.symbolName) (hallowed : light.symbolName ∉ p.blocked) :
    Sound (p.finishLoad instrument light) := by
  intro name hname
  obtain ⟨hfind, hfailure⟩ := h name hname
  have hne : light.symbolName ≠ name := fun heq => hallowed (heq ▸ hname)
  constructor
  · show (p.instruments.set instrument.id instrument).get? (instrumentIdOf name) = none
    rw [Dict.get?_set_of_ne]
    · exact hfind
    · rw [hid]
      exact fun heq => hne (instrumentIdOf_injective heq)
  · show ((p.failures.erase light.symbolName).get? name).isSome = true
    rw [Dict.get?_erase, if_neg hne.symm]
    exact hfailure

/-- Names are unblocked. -/
theorem Sound.of_subset (h : Sound p) {blocked : Finset String} (hsub : blocked ⊆ p.blocked) :
    Sound { p with blocked } := by
  intro name hname
  exact h name (hsub hname)

/-- The provider's moves keep blocked symbols out. -/
theorem Moves.sound (h : Moves L names p p') (hsound : Sound p) : Sound p' := by
  induction h with
  | refl => exact hsound
  | tail _ hmove ih =>
    cases hmove with
    | recordFailure => exact ih.recordFailure _ _
    | finishLoad _ _ _ hid _ hallowed => exact ih.finishLoad hid hallowed
    | unblock => exact ih.of_subset Finset.sdiff_subset
    | share => exact ih

/-- An instrument is loaded and found by its symbol id. -/
theorem Indexed.finishLoad (h : Indexed L p) {instrument : Instrument} {light : ProtoOALightSymbol}
    (hlight : light ∈ L) (hid : instrument.id = instrumentIdOf light.symbolName)
    (hsymbol : instrument.symbolId = light.symbolId) : Indexed L (p.finishLoad instrument light) := by
  constructor
  · intro id other hother
    have hget := Dict.get?_set p.instruments instrument.id instrument id
    rw [show (p.finishLoad instrument light).find id = _ from hget] at hother
    split at hother
    · rename_i heq
      cases hother
      exact ⟨light, hlight, heq ▸ hid, hsymbol⟩
    · exact h.loaded id other hother
  · intro symbolId other hother
    have hfind (id : InstrumentId) (hold : (p.find id).isSome = true) :
        ((p.finishLoad instrument light).find id).isSome = true := by
      show ((p.instruments.set instrument.id instrument).get? id).isSome = true
      rw [Dict.get?_set]
      split
      · rfl
      · exact hold
    have hget := Dict.get?_set p.bySymbolId instrument.symbolId instrument symbolId
    rw [show (p.finishLoad instrument light).instrumentForSymbolId symbolId = _ from hget] at hother
    split at hother
    · rename_i heq
      cases hother
      refine ⟨?_, light, hlight, hid, heq ▸ hsymbol.symm⟩
      show ((p.instruments.set instrument.id instrument).get? instrument.id).isSome = true
      rw [Dict.get?_set_self]
      rfl
    · obtain ⟨hloaded, hsent⟩ := h.found symbolId other hother
      exact ⟨hfind _ hloaded, hsent⟩

/-- The provider's moves keep the index. -/
theorem Moves.indexed (h : Moves L names p p') (hindexed : Indexed L p) : Indexed L p' := by
  induction h with
  | refl => exact hindexed
  | tail _ hmove ih =>
    cases hmove with
    | recordFailure => exact ⟨ih.loaded, ih.found⟩
    | finishLoad _ _ hlight hid hsymbol => exact ih.finishLoad hlight hid hsymbol
    | unblock => exact ⟨ih.loaded, ih.found⟩
    | share => exact ⟨ih.loaded, ih.found⟩

/-! ## Builds -/

section Builds

variable (nautilus : Nautilus) (assets : Dict ℤ ProtoOAAsset) (specs : Dict ℤ ProtoOASymbol)

variable {nautilus assets} in
/-- A built instrument has its symbol's name and id. -/
theorem buildSpec_named {spec : Option ProtoOASymbol} {light : ProtoOALightSymbol}
    {instrument : Instrument} (h : Provider.buildSpec nautilus assets spec light = .ok instrument) :
    instrument.id = instrumentIdOf light.symbolName ∧ instrument.symbolId = light.symbolId := by
  cases spec with
  | none => exact nomatch h
  | some spec => exact instrumentFromSymbol_named h

/-- How a build ends: the symbol is blocked, it is loaded, it is refused, or Nautilus fails. -/
theorem buildOrFail_cases (p : Provider) (spec : Option ProtoOASymbol) (light : ProtoOALightSymbol)
    (recordsFailure : Bool) :
    let name := light.symbolName
    let out := p.buildOrFail nautilus assets spec light recordsFailure
    (name ∈ p.blocked ∧ out = (p, .error (.notRequestedAgain name))) ∨
      (∃ instrument, name ∉ p.blocked ∧ Provider.buildSpec nautilus assets spec light = .ok instrument ∧
        out = (p.finishLoad instrument light, .ok instrument)) ∨
      (∃ error, out = (if recordsFailure then p.recordFailure name (.build error) else p,
        .error (.build error))) ∨
      ∃ error, out = (p, .error (.uncaught error)) := by
  dsimp only [Provider.buildOrFail]
  by_cases hblocked : light.symbolName ∈ p.blocked
  · exact .inl ⟨hblocked, if_pos hblocked⟩
  rw [if_neg hblocked]
  cases Provider.buildSpec nautilus assets spec light with
  | ok instrument => exact .inr (.inl ⟨instrument, hblocked, rfl, rfl⟩)
  | error error =>
    by_cases hcaught : error.caught = true
    · exact .inr (.inr (.inl ⟨error, if_pos hcaught⟩))
    · exact .inr (.inr (.inr ⟨error, if_neg hcaught⟩))

/-- A build is a load, a recorded failure or nothing. -/
theorem buildOrFail_moves (p : Provider) (spec : Option ProtoOASymbol) {light : ProtoOALightSymbol}
    (hlight : light ∈ L) (recordsFailure : Bool) :
    Moves L names p (p.buildOrFail nautilus assets spec light recordsFailure).1 := by
  obtain ⟨-, hout⟩ | ⟨instrument, hallowed, hbuilt, hout⟩ | ⟨error, hout⟩ | ⟨error, hout⟩ :=
    buildOrFail_cases nautilus assets p spec light recordsFailure
  · rw [hout]
  · rw [hout]
    obtain ⟨hid, hsymbol⟩ := buildSpec_named hbuilt
    exact .single (.finishLoad p instrument light hlight hid hsymbol hallowed)
  · rw [hout]
    split
    · exact .single (.recordFailure p _ _)
    · exact .refl
  · rw [hout]

/-- A build looks up no failure. -/
theorem buildOrFail_ne_keyError (p : Provider) (spec : Option ProtoOASymbol)
    (light : ProtoOALightSymbol) (recordsFailure : Bool) (name : String) :
    (p.buildOrFail nautilus assets spec light recordsFailure).2 ≠ .error (.keyError name) := by
  obtain ⟨-, hout⟩ | ⟨instrument, -, -, hout⟩ | ⟨error, hout⟩ | ⟨error, hout⟩ :=
    buildOrFail_cases nautilus assets p spec light recordsFailure <;> simp [hout]

/-- A load error that a load catches has left its failure. -/
theorem buildOrFail_failure (hsound : Sound p) {spec : Option ProtoOASymbol}
    {light : ProtoOALightSymbol} {error : CallError}
    (h : (p.buildOrFail nautilus assets spec light).2 = .error error) (hload : error.isLoadError) :
    ((p.buildOrFail nautilus assets spec light).1.failures.get? light.symbolName).isSome = true := by
  obtain ⟨hblocked, hout⟩ | ⟨instrument, -, -, hout⟩ | ⟨failure, hout⟩ | ⟨failure, hout⟩ :=
    buildOrFail_cases nautilus assets p spec light true
  · rw [hout]
    exact (hsound _ hblocked).2
  · rw [hout] at h
    exact nomatch h
  · rw [hout]
    show ((p.failures.set light.symbolName _).get? light.symbolName).isSome = true
    rw [Dict.get?_set_self]
    rfl
  · rw [hout] at h
    obtain rfl := Except.error.inj h
    exact nomatch hload

/-- What a loop still adds to its result does not change how it fails. -/
theorem map_ne_error {α β : Type} {result : Except CallError α} {f : α → β} {error : CallError}
    (h : result ≠ .error error) : result.map f ≠ .error error := by
  cases result with
  | ok a => exact nofun
  | error failure =>
    intro heq
    exact h (congrArg Except.error (Except.error.inj heq))

/-- Symbols are loaded one by one. -/
theorem loadLights_moves {lights : List ProtoOALightSymbol} (hlights : ∀ light ∈ lights, light ∈ L)
    (p : Provider) : Moves L names p (Provider.loadLights nautilus assets specs p lights).1 := by
  induction lights generalizing p with
  | nil => exact .refl
  | cons light rest ih =>
    obtain ⟨hlight, hrest⟩ := List.forall_mem_cons.mp hlights
    have hbuild : Moves L names p _ :=
      buildOrFail_moves nautilus assets p (specs.get? light.symbolId) hlight true
    unfold Provider.loadLights
    split
    · rename_i built _ hbuilt
      rw [hbuilt] at hbuild
      exact hbuild.trans (ih hrest built)
    · rename_i built error hbuilt
      rw [hbuilt] at hbuild
      split
      · split
        · exact hbuild
        · exact hbuild.trans (ih hrest built)
      · exact hbuild

/-- The failure a load looks up is there. -/
theorem loadLights_ne_keyError {lights : List ProtoOALightSymbol}
    (hlights : ∀ light ∈ lights, light ∈ L) (hsound : Sound p) (name : String) :
    (Provider.loadLights nautilus assets specs p lights).2 ≠ .error (.keyError name) := by
  induction lights generalizing p with
  | nil => exact nofun
  | cons light rest ih =>
    obtain ⟨hlight, hrest⟩ := List.forall_mem_cons.mp hlights
    have hbuild : Moves L [] p _ :=
      buildOrFail_moves nautilus assets p (specs.get? light.symbolId) hlight true
    have hnext := hbuild.sound hsound
    have hraised := buildOrFail_ne_keyError nautilus assets p
      (specs.get? light.symbolId) light true name
    unfold Provider.loadLights
    split
    · rename_i built _ hbuilt
      rw [hbuilt] at hnext
      exact ih hrest hnext
    · rename_i built error hbuilt
      rw [hbuilt] at hnext hraised
      split
      case isTrue hload =>
        have hfailure := buildOrFail_failure nautilus assets hsound (congrArg Prod.snd hbuilt) hload
        rw [hbuilt] at hfailure
        split
        · rename_i hnone
          rw [hnone] at hfailure
          exact nomatch hfailure
        · exact map_ne_error (ih hrest hnext)
      case isFalse =>
        intro heq
        exact hraised (congrArg Except.error (Except.error.inj heq))

/-- A chain's legs are built one by one. -/
theorem buildLegs_moves {legs : List ProtoOALightSymbol} (hlegs : ∀ leg ∈ legs, leg ∈ L)
    (p : Provider) : Moves L names p (Provider.buildLegs nautilus assets specs p legs).1 := by
  induction legs generalizing p with
  | nil => exact .refl
  | cons leg rest ih =>
    obtain ⟨hleg, hrest⟩ := List.forall_mem_cons.mp hlegs
    have hbuild : Moves L names p _ :=
      buildOrFail_moves nautilus assets p (specs.get? leg.symbolId) hleg true
    unfold Provider.buildLegs
    split
    · exact ih hrest p
    · split
      · rename_i hbuilt
        rwa [hbuilt] at hbuild
      · rename_i built _ hbuilt
        rw [hbuilt] at hbuild
        exact hbuild.trans (ih hrest built)

/-- The legs look up no failure. -/
theorem buildLegs_ne_keyError (legs : List ProtoOALightSymbol) (p : Provider) (name : String) :
    (Provider.buildLegs nautilus assets specs p legs).2 ≠ .error (.keyError name) := by
  induction legs generalizing p with
  | nil => exact nofun
  | cons leg rest ih =>
    have hraised := buildOrFail_ne_keyError nautilus assets p
      (specs.get? leg.symbolId) leg true name
    unfold Provider.buildLegs
    split
    · exact map_ne_error (ih p)
    · split
      · rename_i hbuilt
        rw [hbuilt] at hraised
        intro heq
        exact hraised (congrArg Except.error (Except.error.inj heq))
      · rename_i built _ hbuilt
        exact map_ne_error (ih built)

end Builds

/-- Looking names up records failures and finds symbols of the account. -/
theorem lookUpNames_moves {lightSymbols : Dict String ProtoOALightSymbol}
    (hlights : ∀ name light, lightSymbols.get? name = some light → light ∈ L) (asked : List String)
    (p : Provider) (failures : List InstrumentLoadFailure) {lights : Dict String ProtoOALightSymbol}
    (hfound : ∀ light ∈ lights.values, light ∈ L) :
    Moves L names p (System.lookUpNames lightSymbols p failures lights asked).1 ∧
      ∀ light ∈ (System.lookUpNames lightSymbols p failures lights asked).2.2.values, light ∈ L := by
  induction asked generalizing p failures lights with
  | nil => exact ⟨.refl, hfound⟩
  | cons name rest ih =>
    unfold System.lookUpNames
    split
    · obtain ⟨hmoves, hvalues⟩ := ih (p.recordFailure name .notOffered)
        (failures ++ [⟨name, .notOffered⟩]) hfound
      exact ⟨.head (.recordFailure p name .notOffered) hmoves, hvalues⟩
    · rename_i light hlight
      refine ih p failures ?_
      intro other hother
      obtain ⟨key, hget⟩ := Dict.mem_values.mp hother
      exact Dict.forall_set (fun key found hheld => hfound found (Dict.mem_values.mpr ⟨key, hheld⟩))
        (hlights name light hlight) key other hget

/-- Ids of another venue are refused. -/
theorem refuseForeign_moves (ids : List InstrumentId) (p : Provider) :
    Moves L names p (System.refuseForeign p ids).1 := by
  induction ids generalizing p with
  | nil => exact .refl
  | cons id rest ih =>
    unfold System.refuseForeign
    split
    · exact .head (.recordFailure p id.symbol .notCtrader) (ih _)
    · exact ih p

/-! ## Calls -/

/-- The symbols a suspended call holds. -/
def Call.lights : Call → List ProtoOALightSymbol
  | .load lights _ => lights
  | .reload light => [light]
  | .chain _ => []
  | .legs lights => lights

def QueryEnd.lights : QueryEnd → List ProtoOALightSymbol
  | .answered chain => chain
  | _ => []

/-- The venue has sent every symbol at hand. -/
structure Known (L : Set ProtoOALightSymbol) (s : System) : Prop where
  account : ∀ name light, s.account.lightSymbols.get? name = some light → light ∈ L
  calls : ∀ id call, s.calls.get? id = some call → ∀ light ∈ call.lights, light ∈ L
  ended : ∀ task outcome, s.ended.get? task = some outcome → ∀ light ∈ outcome.lights, light ∈ L
  chains : ∀ key chain, s.provider.chains.get? key = some chain → ∀ leg ∈ chain, leg ∈ L

/-- What a call does between two awaits: moves on the provider, and at most a query of its own, which
no task number in use is given to. -/
structure Turn (L : Set ProtoOALightSymbol) (names : List String) (s : System)
    (out : System × List Told) : Prop where
  moves : Moves L names s.provider out.1.provider
  known : Known L out.1
  asking : out.1.asking = s.asking
  created : ∀ task key, out.1.created.get? task = some key →
    s.created.get? task = some key ∨ s.nextTask ≤ task ∧ task < out.1.nextTask
  nextTask : s.nextTask ≤ out.1.nextTask
  told : ∀ told ∈ out.2, ∀ name, told.result ≠ .error (.keyError name)

section Calls

variable {settings : Settings} {s : System} {result : Except CallError (List Instrument)}

/-- A turn that leaves the queries as they are. -/
theorem Turn.of_calls (hknown : Known L s) (hmoves : Moves L names s.provider p)
    {calls : Dict ℕ Call} {nextCall : ℕ} {told : List Told}
    (hcalls : ∀ id call, calls.get? id = some call → ∀ light ∈ call.lights, light ∈ L)
    (htold : ∀ t ∈ told, ∀ name, t.result ≠ .error (.keyError name)) :
    Turn L names s ({ s with provider := p, calls, nextCall }, told) where
  moves := hmoves
  known :=
    { account := hknown.account
      calls := hcalls
      ended := hknown.ended
      chains := by
        intro key chain hchain
        rw [show p.chains = s.provider.chains from hmoves.chains.1] at hchain
        exact hknown.chains key chain hchain }
  asking := rfl
  created := fun _ _ hcreated => .inl hcreated
  nextTask := le_refl _
  told := htold

/-- Nothing happens. -/
theorem Turn.quiet (hknown : Known L s) : Turn L names s (s, []) :=
  .of_calls hknown .refl hknown.calls nofun

/-- A call ends within its first turn. -/
theorem Turn.endNow (hknown : Known L s) (hmoves : Moves L names s.provider p)
    (hresult : ∀ name, result ≠ .error (.keyError name)) :
    Turn L names s ({ s with provider := p }.endNow result) := by
  refine .of_calls hknown hmoves hknown.calls ?_
  intro told htold
  rw [List.mem_singleton.mp htold]
  exact hresult

/-- The calls that stay hold what they held. -/
theorem Known.calls_set (hknown : Known L s) (id : ℕ) (call : Call)
    (hlights : ∀ light ∈ call.lights, light ∈ L) (other : ℕ) (found : Call)
    (hfound : (s.calls.set id call).get? other = some found) : ∀ light ∈ found.lights, light ∈ L :=
  Dict.forall_set hknown.calls hlights other found hfound

/-- A call awaits the venue. -/
theorem Turn.suspend (hknown : Known L s) (hmoves : Moves L names s.provider p) (call : Call)
    (hlights : ∀ light ∈ call.lights, light ∈ L) :
    Turn L names s ({ s with provider := p }.suspend call) :=
  .of_calls hknown hmoves (hknown.calls_set s.nextCall call hlights) nofun

/-- A call ends. -/
theorem Turn.endCall (hknown : Known L s) (hmoves : Moves L names s.provider p) (id : ℕ)
    (hresult : ∀ name, result ≠ .error (.keyError name)) :
    Turn L names s ({ s with provider := p }.endCall id result) := by
  refine .of_calls hknown hmoves (Dict.forall_erase hknown.calls id) ?_
  intro told htold
  rw [List.mem_singleton.mp htold]
  exact hresult

/-- A call suspends with a query of its own, which takes the next task number. -/
theorem Turn.asks (hknown : Known L s) (key : ChainKey) (chainTasks : Dict ChainKey ℕ) :
    Turn L names s ({ s with
      provider := { s.provider with chainTasks }
      created := s.created.set s.nextTask key
      nextTask := s.nextTask + 1 }.suspend (.chain s.nextTask)) where
  moves := .single (.share _ _)
  known := ⟨hknown.account, hknown.calls_set s.nextCall (.chain s.nextTask) (by simp [Call.lights]),
    hknown.ended, hknown.chains⟩
  asking := rfl
  created := by
    intro task found hfound
    rcases Dict.get?_set_eq_some.mp hfound with ⟨rfl, -⟩ | ⟨-, hold⟩
    · exact .inr ⟨le_refl _, Nat.lt_succ_self _⟩
    · exact .inl hold
  nextTask := Nat.le_succ _
  told := by simp [System.suspend]

/-- Failures that are raised are not looked up. -/
theorem raiseIfConfigured_ne_keyError (failures : List InstrumentLoadFailure) (name : String) :
    System.raiseIfConfigured settings failures ≠ .error (.keyError name) := by
  unfold System.raiseIfConfigured
  split
  · exact fun heq => nomatch Except.error.inj heq
  · exact nofun

/-- Names are loaded, as far as the first request. -/
theorem loadNames_turn (hknown : Known L s) (hmoves : Moves L names s.provider p) (asked : List String)
    (failures : List InstrumentLoadFailure) :
    Turn L names s ({ s with provider := p }.loadNames settings asked failures) := by
  unfold System.loadNames
  split
  · exact .endNow hknown hmoves (raiseIfConfigured_ne_keyError failures)
  · obtain ⟨hlooked, hlights⟩ := lookUpNames_moves hknown.account asked p failures
      (show ∀ light ∈ (Dict.empty : Dict String ProtoOALightSymbol).values, light ∈ L from nofun)
    exact .suspend hknown (hmoves.trans hlooked) (.load _ _) hlights

/-- The chain of an instrument is asked for. -/
theorem conversionInstrumentsFor_turn (hknown : Known L s) (id : InstrumentId) :
    Turn L [] s (s.conversionInstrumentsFor settings id) := by
  unfold System.conversionInstrumentsFor
  split
  · exact .endNow hknown .refl (by simp)
  split
  · exact .endNow hknown .refl (by simp)
  split
  · exact .endNow hknown .refl (by simp)
  split
  · exact .endNow hknown .refl (by simp)
  dsimp only
  split
  · unfold System.chainQuery
    split
    · exact .suspend hknown .refl _ (by simp [Call.lights])
    · exact .asks hknown _ _
  · rename_i chain hchain
    have hlegs := hknown.chains _ chain hchain
    split
    · exact .endNow hknown (buildLegs_moves _ _ _ hlegs s.provider)
        (buildLegs_ne_keyError _ _ _ chain s.provider)
    · exact .suspend hknown .refl _ hlegs

/-- A call goes on with its chain. -/
theorem resumeChain_turn (hknown : Known L s) (id : ℕ) :
    Turn L [] s (s.resumeChain settings id) := by
  unfold System.resumeChain
  split
  · split
    · exact .quiet hknown
    · exact .endCall hknown .refl id nofun
    · exact .endCall hknown .refl id nofun
    · rename_i chain hended
      have hlegs : ∀ leg ∈ chain, leg ∈ L := hknown.ended _ _ hended
      split
      · exact .endCall hknown .refl id nofun
      split
      · exact .endCall hknown (buildLegs_moves _ _ _ hlegs s.provider) id
          (buildLegs_ne_keyError _ _ _ chain s.provider)
      · exact .of_calls hknown .refl (hknown.calls_set id (.legs chain) hlegs) nofun
  · exact .quiet hknown

/-- A call goes on with the symbols the venue sent. -/
theorem resumeSpecs_turn (hknown : Known L s) (hsound : Sound s.provider) (id : ℕ)
    (answer : Option (Dict ℤ ProtoOASymbol)) : Turn L [] s (s.resumeSpecs settings id answer) := by
  unfold System.resumeSpecs
  split
  · exact .endCall hknown .refl id nofun
  · exact .endCall hknown .refl id nofun
  · exact .endCall hknown .refl id nofun
  · rename_i lights failures specs hcall
    have hlights : ∀ light ∈ lights, light ∈ L := hknown.calls id _ hcall
    have hmoves : Moves L [] s.provider _ :=
      loadLights_moves settings.nautilus s.account.assets specs hlights s.provider
    have hraised :=
      loadLights_ne_keyError settings.nautilus s.account.assets specs hlights hsound
    dsimp only
    split
    · rename_i error hloaded
      rw [hloaded] at hraised
      refine .endCall hknown hmoves id ?_
      intro name heq
      exact hraised name (congrArg Except.error (Except.error.inj heq))
    · exact .endCall hknown hmoves id (raiseIfConfigured_ne_keyError _)
  · rename_i light specs hcall
    have hlight : light ∈ L := hknown.calls id _ hcall light (List.mem_singleton_self light)
    refine .endCall hknown
      (buildOrFail_moves _ _ s.provider (specs.get? light.symbolId) hlight false) id ?_
    intro name
    exact map_ne_error (buildOrFail_ne_keyError _ _ s.provider _ light false name)
  · rename_i chain specs hcall
    have hlegs : ∀ leg ∈ chain, leg ∈ L := hknown.calls id _ hcall
    exact .endCall hknown (buildLegs_moves _ _ _ hlegs s.provider) id
      (buildLegs_ne_keyError _ _ _ chain s.provider)
  · exact .quiet hknown

/-- A call is cancelled. -/
theorem cancelCall_turn (hknown : Known L s) (id : ℕ) : Turn L [] s (s.cancelCall id) := by
  unfold System.cancelCall
  split
  · exact .quiet hknown
  · exact .endCall hknown .refl id nofun

/-- A symbol is reloaded. -/
theorem reload_turn (hknown : Known L s) (symbolId : ℤ) : Turn L [] s (s.reload symbolId) := by
  unfold System.reload
  split
  · exact .endNow hknown .refl nofun
  split
  · exact .endNow hknown .refl nofun
  · rename_i light hfound
    obtain ⟨name, hget⟩ := Dict.mem_values.mp (List.mem_of_find?_eq_some hfound)
    refine .suspend hknown .refl _ ?_
    intro other hother
    rw [List.mem_singleton.mp hother]
    exact hknown.account name light hget

/-- All symbols are loaded. -/
theorem loadAll_turn (hknown : Known L s) : Turn L [] s (s.loadAll settings) := by
  unfold System.loadAll
  split
  · exact loadNames_turn hknown .refl _ []
  · exact .endNow hknown .refl nofun

/-- Instruments are loaded by their ids. -/
theorem loadIds_turn (hknown : Known L s) (ids : List InstrumentId) :
    Turn L (System.requestedNames ids) s (s.loadIds settings ids) := by
  unfold System.loadIds
  split
  · exact .endNow hknown .refl nofun
  · split
    · exact .endNow hknown .refl nofun
    · exact loadNames_turn hknown ((refuseForeign_moves ids s.provider).tail (.unblock _)) _ _

end Calls

end Instruments

end NautilusCtrader
