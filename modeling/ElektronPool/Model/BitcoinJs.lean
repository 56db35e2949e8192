import ElektronPool.Lib.JavaScript

namespace ElektronPool.Model

open Lib Lib.JavaScript

/-- The 32 bytes of a hash, a transaction id or a merkle node. -/
abbrev Hash := List.Vector UInt8 32

def zeroHash : Hash := List.Vector.replicate 32 0

structure TxIn where
  hash : Hash
  index : ℕ
  script : Bytes
  sequence : ℕ
  witness : List Bytes
deriving DecidableEq

structure TxOut where
  value : ℤ
  script : Bytes
deriving DecidableEq

structure Transaction where
  version : ℤ
  locktime : ℤ
  ins : List TxIn
  outs : List TxOut
deriving DecidableEq

/-- `bitcoinjs.Block`. A template's block holds naturals as its timestamp and
nonce, a block under submission whatever `parseInt` made of the miner's strings. -/
structure Block (N : Type) where
  version : ℤ
  prevHash : Hash
  merkleRoot : Option Hash
  timestamp : N
  bits : BitVec 32
  nonce : N
  witnessCommit : Option Hash
  transactions : List Transaction
deriving DecidableEq

inductive Network
  | elektronMainnet
  | elektronRegtest
  | bitcoinMainnet
  | bitcoinTestnet
  | bitcoinRegtest
deriving DecidableEq

/-- What the pool calls in bitcoinjs-lib and merkle-lib. A call that may throw
answers `none` when it does. -/
structure BitcoinJs where
  hash256 : Bytes → Hash
  /-- `address.toOutputScript(address, network)` -/
  toOutputScript : Network → String → Option Bytes
  /-- `Transaction.fromBuffer`, and `fromHex` on the bytes of its argument -/
  transactionFromBuffer : Bytes → Option Transaction
  /-- `tx.toBuffer()`, witnesses included -/
  transactionToBuffer : Transaction → Option Bytes
  /-- `tx.__toBuffer()`, the serialisation without witnesses -/
  transactionNoWitness : Transaction → Option Bytes
  transactionWeight : Transaction → ℕ
  blockWeight : Block ℕ → ℕ
  /-- `block.toBuffer(headersOnly)` -/
  blockToBuffer : Bool → Block Number → Option Bytes
  /-- `Block.calculateMerkleRoot(transactions, true)` -/
  witnessMerkleRoot : List Transaction → Hash
  /-- `script.number.encode` -/
  scriptNumberEncode : ℕ → Bytes
  /-- `script.compile([OP_RETURN, data])` -/
  compileOpReturn : Bytes → Bytes
  /-- `merkleProof(merkle(leaves, hash256), leaves[0])` -/
  merkleProof : List Hash → List (Option Hash)

def BitcoinJs.getHash (js : BitcoinJs) (tx : Transaction) : Option Hash :=
  (js.transactionNoWitness tx).map js.hash256

def headerLayout (block : Block Number) : Option Bytes := do
  let version ← writeInt32LE block.version
  let merkleRoot ← block.merkleRoot
  let timestamp ← writeUInt32LE block.timestamp
  let bits ← writeUInt32LE (.int block.bits.toNat)
  let nonce ← writeUInt32LE block.nonce
  return version ++ block.prevHash.toList ++ merkleRoot.toList ++ timestamp ++ bits ++ nonce

/-- What the pool relies on in the serialisation of bitcoinjs-lib. -/
structure BitcoinJs.Serialises (js : BitcoinJs) : Prop where
  header : ∀ block, js.blockToBuffer true block = headerLayout block
  parse : ∀ tx, tx.ins ≠ [] → (js.transactionNoWitness tx).isSome →
    (js.transactionToBuffer tx >>= js.transactionFromBuffer) = some tx

/-- What it relies on in the serialisation of whole blocks. -/
structure BitcoinJs.SerialisesBlocks (js : BitcoinJs) : Prop where
  reserialise : ∀ buffer tx, js.transactionFromBuffer buffer = some tx →
    (js.transactionToBuffer tx).isSome
  block : ∀ block, (js.blockToBuffer true block).isSome →
    (∀ tx ∈ block.transactions, (js.transactionToBuffer tx).isSome) →
    (js.blockToBuffer false block).isSome

end ElektronPool.Model
