import Sumcoin.Primitives.Transaction

/-!
# Blocks: `primitives/block.h`

`CBlockHeader` carries, besides the Bitcoin fields, `nFlags`: a copy of the block
index flags that peers send with headers so that headers-first synchronisation knows
a block's type before its body arrives.  `CBlock` adds the transactions, the block
signature and the memory-only `fChecked` flag that `CheckBlock` sets.

## Main definitions

* `CBlockHeader`, `CBlock`.
* `CBlock.isProofOfStake`, `CBlock.isProofOfWork`.
-/

namespace Sumcoin

/-- `CBlockHeader`. -/
structure CBlockHeader where
  nVersion : Int32
  hashPrevBlock : Uint256
  hashMerkleRoot : Uint256
  nTime : UInt32
  nBits : UInt32
  nNonce : UInt32
  nFlags : UInt32
  deriving DecidableEq, Repr

/-- `CBlock`: the header it extends, the transactions, the block signature, and the
memory-only `fChecked`. -/
structure CBlock where
  header : CBlockHeader
  vtx : List CTransaction
  vchBlockSig : List UInt8
  fChecked : Bool
  deriving DecidableEq, Repr

namespace CBlock

/-- `GetBlockTime()`. -/
def getBlockTime (b : CBlock) : Int := b.header.nTime.toNat

/-- `IsProofOfStake()`: a second transaction that is a coinstake. -/
def isProofOfStake (b : CBlock) : Bool :=
  match b.vtx with
  | _ :: tx :: _ => tx.isCoinStake
  | _ => false

/-- `IsProofOfWork()`. -/
def isProofOfWork (b : CBlock) : Bool := !b.isProofOfStake

end CBlock

end Sumcoin
