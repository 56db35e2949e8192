import ElektronPool.Lib.Regex
import ElektronPool.Model.Notification

namespace ElektronPool.Model

open Lib Lib.JavaScript

def trim (s : String) : String :=
  String.ofList ((s.toList.dropWhile isWhiteSpace).rdropWhile isWhiteSpace)

structure RegistryMempoolEntry where
  name : String
  url : String
deriving DecidableEq

section Parser

def isQuote (c : Char) : Bool := decide (c = '"')

def isBackslash (c : Char) : Bool := decide (c = '\\')

/-- What `.` does not match. -/
def isLineTerminator (c : Char) : Bool := c.toNat ∈ [0xA, 0xD, 0x2028, 0x2029]

def quotedCharacter : Regex Char :=
  .alt (.one fun c ↦ !isQuote c && !isBackslash c)
    (.seq (.one isBackslash) (.one fun c ↦ !isLineTerminator c))

def quotedString : Regex Char :=
  .seq (.one isQuote) (.seq (.group (.star quotedCharacter)) (.one isQuote))

def quotedFields (line : List Char) : List String :=
  (quotedString.matchAll (line.length + 1) line).map fun captures ↦
    String.ofList (captures.headD [])

def parseLine (rawLine : String) : Option RegistryMempoolEntry :=
  let line := trim rawLine
  if line.length = 0 then none
  else
    match quotedFields line.toList with
    | [name, url] =>
      if (trim name).length = 0 || (trim url).length = 0 then none
      else some ⟨trim name, trim url⟩
    | _ => none

def parseMempoolsRegistry (text : Option String) : List RegistryMempoolEntry :=
  (((text.getD "").toList.splitOn '\n').map String.ofList).filterMap parseLine

end Parser

structure PoolIdentityConfig where
  poolIdentifier : Option String
  poolUrl : Option String

namespace PoolIdentityConfig

def trimmed (value : Option String) : Option String := (value.map trim).filter (· ≠ "")

end PoolIdentityConfig

structure RegistryReport where
  url : String
  name : String
  blockHash : String
deriving DecidableEq

structure PoolRegistry where
  mempools : List RegistryMempoolEntry
  recentlyFoundBlocks : FoundBlocks
  /-- the file `mempools-registry.txt` -/
  localCache : Option String

structure PoolIdentityConfirmation where
  confirmed : Bool
  name : Option String
  url : Option String
deriving DecidableEq

namespace PoolRegistry

variable (config : PoolIdentityConfig) (toLowerCase : String → String) (registry : PoolRegistry)

def loadLocalCache : PoolRegistry :=
  match registry.localCache with
  | some text => { registry with mempools := parseMempoolsRegistry text }
  | none => registry

/-- An answer without entries leaves the list and its copy on disk as they are. -/
def refreshRegistry : Except String (Option String) → PoolRegistry
  | .ok data =>
    let entries := parseMempoolsRegistry data
    if 0 < entries.length then { registry with mempools := entries, localCache := data }
    else registry
  | .error _ => registry

def withoutTrailingSlash (url : String) : String :=
  if url.toList.getLast? = some '/' then String.ofList url.toList.dropLast else url

def recordFoundBlock (blockHash : String) (now : ℕ) : PoolRegistry :=
  { registry with
    recentlyFoundBlocks :=
      registry.recentlyFoundBlocks.recordFoundBlock toLowerCase blockHash now }

def wasRecentlyFound (blockHash : String) (now : ℕ) : PoolRegistry × Bool :=
  let (recentlyFoundBlocks, answer) :=
    registry.recentlyFoundBlocks.wasRecentlyFound toLowerCase blockHash now
  ({ registry with recentlyFoundBlocks }, answer)

/-- The block is recorded first; the reports are not retried, whatever becomes of them. -/
def reportBlockFound (blockHash : String) (now : ℕ) : PoolRegistry × List RegistryReport :=
  let registry := registry.recordFoundBlock toLowerCase blockHash now
  match PoolIdentityConfig.trimmed config.poolIdentifier with
  | some name =>
    (registry, registry.mempools.map fun mempool ↦
      { url := withoutTrailingSlash mempool.url ++ "/api/v1/pool-registry/report"
        name, blockHash })
  | none => (registry, [])

def poolIdentityConfirm (blockHash : Option String) (now : ℕ) :
    PoolRegistry × PoolIdentityConfirmation :=
  let (recentlyFoundBlocks, confirmed) :=
    registry.recentlyFoundBlocks.confirmed toLowerCase now blockHash
  ({ registry with recentlyFoundBlocks },
    { confirmed
      name := PoolIdentityConfig.trimmed config.poolIdentifier
      url := PoolIdentityConfig.trimmed config.poolUrl })

end PoolRegistry

end ElektronPool.Model
