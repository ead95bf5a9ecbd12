import Utxo.Address
import Utxo.Json
import Utxo.Payload.Context

/-! # Settings of inspections -/

namespace Utxo

structure InspectionConfig where
  network : Network := .mainnet
  /-- How many levels there are below the outermost transaction. -/
  maxDepth : Nat := PayloadContext.defaultLimit
  deriving DecidableEq, Repr

/-- A network is its name, or an object whose only member has that name and is null. -/
def Network.ofJson? : Json → Option Network
  | .string (some name) => named? name
  | .object [(some name, .null)] => named? name
  | _ => none
where
  named? (name : String) : Option Network := [mainnet, testnet].find? (·.name == name)

namespace InspectionConfig

def limitsOfJson? (j : Json) : Option Nat := do
  let fields ← j.fields? ["max_depth"]
  Json.defaulted fields "max_depth" PayloadContext.defaultLimit (Json.natBelow? UInt64.size)

def ofJson? (j : Json) : Option InspectionConfig := do
  let base : InspectionConfig := {}
  let fields ← j.fields? ["network", "limits"]
  let network ← Json.defaulted fields "network" base.network Network.ofJson?
  let maxDepth ← Json.defaulted fields "limits" base.maxDepth limitsOfJson?
  return { network, maxDepth }

def toJson (c : InspectionConfig) : Json := .record [
  ("network", .text c.network.name),
  ("limits", .record [("max_depth", .nat c.maxDepth)])]

end InspectionConfig

end Utxo
