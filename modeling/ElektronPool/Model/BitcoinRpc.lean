import ElektronPool.Lib.Replay
import Mathlib.Data.Rat.Defs

namespace ElektronPool.Model

open Lib

structure IMiningInfo where
  blocks : ℕ
  difficulty : ℚ
deriving DecidableEq

/-- How a call of the node ends: `callRpc` throws the error of an answer that has one. -/
inductive RpcReply (α : Type)
  | error
  | result (value : Option α)
deriving DecidableEq

/-- `BitcoinRpcService` as far as it looks for new blocks, with the number of calls
of `getmininginfo` that the node has not answered. -/
structure BitcoinRpcService (S : Type) where
  blockHeight : ℕ := 0
  polls : ℕ := 0
  newBlock : S

namespace BitcoinRpcService

inductive Event
  /-- the timer, or a block that the node announces -/
  | poll
  | answer (reply : RpcReply IMiningInfo)
  | subscribe
  | unsubscribe (id : ℕ)

def getMiningInfo : RpcReply IMiningInfo → Option IMiningInfo
  | .error => none
  | .result miningInfo => miningInfo

variable {S : Type} (rx : Multicast S IMiningInfo) (service : BitcoinRpcService S)

def pollMiningInfo (miningInfo : Option IMiningInfo) : BitcoinRpcService S :=
  match miningInfo with
  | none => service
  | some miningInfo =>
    if service.blockHeight < miningInfo.blocks then
      { service with
        newBlock := rx.next service.newBlock miningInfo
        blockHeight := miningInfo.blocks }
    else service

/-- Calls may be waiting for their answers at the same time, which come in any order. -/
def step (service : BitcoinRpcService S) : Event → Option (BitcoinRpcService S)
  | .poll => some { service with polls := service.polls + 1 }
  | .answer reply =>
    if service.polls = 0 then none
    else some ({ service with polls := service.polls - 1 }.pollMiningInfo rx (getMiningInfo reply))
  | .subscribe => some { service with newBlock := rx.subscribe service.newBlock }
  | .unsubscribe id =>
    if id ∈ rx.listeners service.newBlock then
      some { service with newBlock := rx.unsubscribe service.newBlock id }
    else none

end BitcoinRpcService

end ElektronPool.Model
