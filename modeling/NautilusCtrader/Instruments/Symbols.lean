import Mathlib.Data.Int.Notation
import NautilusCtrader.Common.Dict
import NautilusCtrader.Common.Raising

/-!
# Instruments from the venue's symbols

`instrument_from_symbol` builds a Nautilus instrument from a symbol's full spec and its light entry. It
refuses what does not convert exactly, and Nautilus refuses what it finds invalid in its constructors'
arguments, which is a parameter here. What is built is named after the light entry.
-/

namespace NautilusCtrader

open Common

namespace Instruments

/-! ## Messages and identifiers -/

structure ProtoOALightSymbol where
  symbolId : ℤ
  symbolName : String
  baseAssetId : ℤ
  quoteAssetId : ℤ
deriving DecidableEq, Repr

structure ProtoOAAsset where
  assetId : ℤ
  name : String
deriving DecidableEq, Repr

structure ProtoOASymbol where
  symbolId : ℤ
  digits : ℤ
  stepVolume : Option ℤ := none
  lotSize : Option ℤ := none
  minVolume : Option ℤ := none
  maxVolume : Option ℤ := none
deriving DecidableEq, Repr

structure InstrumentId where
  symbol : String
  venue : String
deriving DecidableEq, Repr

/-- `CTRADER_VENUE`. -/
def ctraderVenue : String := "CTRADER"

/-- The id of the instrument of a symbol. -/
def instrumentIdOf (name : String) : InstrumentId := ⟨name, ctraderVenue⟩

/-! ## Instruments -/

inductive CurrencyType
  | crypto | fiat | commodityBacked
deriving DecidableEq, Repr

structure Currency where
  code : String
  currencyType : CurrencyType
deriving DecidableEq, Repr

/-- A `CurrencyPair` or a `Cfd`, with what the adapter reads of it. -/
structure Instrument where
  id : InstrumentId
  currencyPair : Bool
  quoteCurrency : Currency
  pricePrecision : ℤ
  sizePrecision : ℕ
  /-- `info["symbol_id"]`. -/
  symbolId : ℤ
deriving DecidableEq, Repr

/-- Why an instrument cannot be built. -/
inductive BuildError
  | noSpec (name : String)
  | digitsTooMany (name : String) (digits : ℤ)
  | assetNotFound (name : String) (assetId : ℤ)
  | quoteNotCurrency (name quoteName : String)
  | stepVolumeMissing (name : String)
  | notExact (name field : String) (raw : ℤ) (precision : ℕ)
  /-- A `ValueError` or a `TypeError` of Nautilus. -/
  | refused (message : String)
  /-- Anything else Nautilus raises. -/
  | other (message : String)
deriving DecidableEq, Repr

/-- Whether `_build_or_fail` catches it. -/
def BuildError.caught : BuildError → Bool
  | .other _ => false
  | _ => true

/-- What Nautilus knows and refuses. -/
structure Nautilus where
  /-- `Currency.from_str(name, strict=True)`. -/
  currency : String → Option Currency
  symbol : String → Except BuildError Unit
  price : ℤ → Except BuildError Unit
  /-- A volume in cents at a precision. -/
  quantity : ℤ → ℕ → Except BuildError Unit
  instrument : Instrument → Except BuildError Unit

/-- `_is_pair_currency`. -/
def isPairCurrency (currency : Option Currency) : Bool :=
  currency.any fun c => c.currencyType = .fiat || c.currencyType = .crypto

/-- `_asset_name`. -/
def assetName (assets : Dict ℤ ProtoOAAsset) (assetId : ℤ) (symbolName : String) :
    Except BuildError String :=
  match assets.get? assetId with
  | none => .error (.assetNotFound symbolName assetId)
  | some asset => .ok asset.name

/-- `_precision` of a volume in cents, as units. -/
def unitsPrecision (volumeCents : ℤ) : ℕ :=
  if volumeCents % 100 = 0 then 0 else if volumeCents % 10 = 0 then 1 else 2

/-- `_optional_exact_quantity`. -/
def optionalExactQuantity (nautilus : Nautilus) (symbolName field : String) (raw : Option ℤ)
    (precision : ℕ) : Except BuildError Unit :=
  match raw with
  | none => .ok ()
  | some raw =>
    if precision < unitsPrecision raw then .error (.notExact symbolName field raw precision)
    else nautilus.quantity raw precision

/-- The precision of an instrument's sizes, which its step gives. -/
def sizePrecisionOf (nautilus : Nautilus) (name : String) (symbol : ProtoOASymbol) :
    Except BuildError ℕ := do
  let step := symbol.stepVolume.getD 0
  if step ≤ 0 then throw (.stepVolumeMissing name)
  let precision := unitsPrecision step
  nautilus.quantity step precision
  optionalExactQuantity nautilus name "lotSize" symbol.lotSize precision
  optionalExactQuantity nautilus name "minVolume" symbol.minVolume precision
  optionalExactQuantity nautilus name "maxVolume" symbol.maxVolume precision
  return precision

/-- The precision of an instrument's prices. -/
def pricePrecisionOf (nautilus : Nautilus) (name : String) (symbol : ProtoOASymbol) :
    Except BuildError ℤ := do
  if 5 < symbol.digits then throw (.digitsTooMany name symbol.digits)
  nautilus.price symbol.digits
  return symbol.digits

/-- The quote currency, and whether a symbol is one of a currency pair. -/
def currenciesOf (nautilus : Nautilus) (light : ProtoOALightSymbol) (assets : Dict ℤ ProtoOAAsset) :
    Except BuildError (Currency × Bool) := do
  let baseName ← assetName assets light.baseAssetId light.symbolName
  let quoteName ← assetName assets light.quoteAssetId light.symbolName
  let baseCurrency := nautilus.currency baseName
  match nautilus.currency quoteName with
  | none => throw (.quoteNotCurrency light.symbolName quoteName)
  | some quoteCurrency =>
    return (quoteCurrency, isPairCurrency baseCurrency && isPairCurrency (some quoteCurrency))

/-- `instrument_from_symbol`. -/
def instrumentFromSymbol (nautilus : Nautilus) (symbol : ProtoOASymbol) (light : ProtoOALightSymbol)
    (assets : Dict ℤ ProtoOAAsset) : Except BuildError Instrument := do
  let name := light.symbolName
  nautilus.symbol name
  let pricePrecision ← pricePrecisionOf nautilus name symbol
  let (quoteCurrency, currencyPair) ← currenciesOf nautilus light assets
  let sizePrecision ← sizePrecisionOf nautilus name symbol
  let instrument : Instrument :=
    { id := instrumentIdOf name
      currencyPair
      quoteCurrency
      pricePrecision
      sizePrecision
      symbolId := light.symbolId }
  nautilus.instrument instrument
  return instrument

/-- What is built is named after its light entry. -/
theorem instrumentFromSymbol_named {nautilus : Nautilus} {symbol : ProtoOASymbol}
    {light : ProtoOALightSymbol} {assets : Dict ℤ ProtoOAAsset} {instrument : Instrument}
    (h : instrumentFromSymbol nautilus symbol light assets = .ok instrument) :
    instrument.id = instrumentIdOf light.symbolName ∧ instrument.symbolId = light.symbolId := by
  unfold instrumentFromSymbol at h
  obtain ⟨_, -, h⟩ := bind_eq_ok.mp h
  obtain ⟨_, -, h⟩ := bind_eq_ok.mp h
  obtain ⟨⟨_, _⟩, -, h⟩ := bind_eq_ok.mp h
  obtain ⟨_, -, h⟩ := bind_eq_ok.mp h
  obtain ⟨_, -, h⟩ := bind_eq_ok.mp h
  obtain rfl := pure_eq_ok.mp h
  exact ⟨rfl, rfl⟩

end Instruments

end NautilusCtrader
