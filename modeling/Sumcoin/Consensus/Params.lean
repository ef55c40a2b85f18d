import Sumcoin.Consensus.Merkle
import Sumcoin.Script.Script

/-!
# Chain parameters and protocol switches: `consensus/params.h`, `chainparams.cpp`,
`kernel.cpp`, `chain.h`

The source reads its network through the global `Params()`; the model passes the
parameters explicitly.  Every protocol switch of `kernel.cpp` compares a timestamp with
a switch time that depends only on whether the network is the main one.  The switch
that needs the chain (`IsProtocolV06`) is in `Chain.BlockIndex`.

## Main definitions

* `Network`, `ConsensusParams`, `ChainParams`, `createGenesisBlock`, `mainParams`.
* `isProtocolV03` … `isProtocolV10`, `isBTC16BIPsEnabled`.
* `maxFutureBlockTime`, `maxFutureBlockTimePrev9`.
-/

namespace Sumcoin

/-- `uint256S(hex)`: the blob whose little-endian value is the number the hex spells. -/
def Uint256.ofNat (x : Nat) : Uint256 := ⟨Vector.ofFn fun i => ((x / 256 ^ i.val) % 256).toUInt8⟩

/-- `CBaseChainParams::MAIN`, `TESTNET`, `REGTEST`. -/
inductive Network where
  | main
  | testnet
  | regtest
  deriving DecidableEq, Repr

/-- The fields of `Consensus::Params` that the modelled code reads. -/
structure ConsensusParams where
  hashGenesisBlock : Uint256
  powLimit : Uint256
  bnInitialHashTarget : Uint256
  nStakeTargetSpacing : Int
  nTargetSpacingWorkMax : Int
  nTargetTimespan : Int
  nStakeMinAge : Int
  nStakeMaxAge : Int
  nModifierInterval : Int
  nCoinbaseMaturity : Int
  deriving DecidableEq, Repr

/-- `CChainParams`: the network, its consensus parameters and its checkpoints, with
the node's `-checkpoints` setting (`fCheckpointsEnabled`). -/
structure ChainParams where
  network : Network
  consensus : ConsensusParams
  /-- `Checkpoints().mapCheckpoints`, by increasing height. -/
  checkpoints : List (Nat × Uint256)
  fCheckpointsEnabled : Bool
  deriving DecidableEq, Repr

/-! ## Protocol switches -/

/-- `NetworkIDString() != CBaseChainParams::MAIN`. -/
def Network.isTest (net : Network) : Bool := net != .main

/-- A switch at `mainTime` on the main network and `testTime` on the others. -/
def switchedOn (net : Network) (mainTime testTime : Nat) (nTime : UInt32) : Bool :=
  decide (nTime.toNat ≥ if net.isTest then testTime else mainTime)

/-- `IsProtocolV03(nTimeCoinStake)`. -/
def isProtocolV03 (net : Network) (nTime : UInt32) : Bool :=
  switchedOn net 1685430000 1701307000 nTime

/-- `IsProtocolV04(nTimeBlock)`. -/
def isProtocolV04 (net : Network) (nTime : UInt32) : Bool :=
  switchedOn net (1685483244 + 1000) (1701307000 + 1000) nTime

/-- `IsProtocolV05(nTimeTx)`. -/
def isProtocolV05 (net : Network) (nTime : UInt32) : Bool :=
  switchedOn net (1685483244 + 2000) (1701307000 + 2000) nTime

/-- `nProtocolV06SwitchTime`, `nProtocolV06TestSwitchTime`: the time half of
`IsProtocolV06`. -/
def protocolV06SwitchTime (net : Network) : Nat :=
  if net.isTest then 1701307000 + 3000 else 1685483244 + 3000

/-- `IsProtocolV07(nTimeTx)`. -/
def isProtocolV07 (net : Network) (nTime : UInt32) : Bool :=
  switchedOn net (1685483244 + 4000) (1701307000 + 4000) nTime

/-- `IsBTC16BIPsEnabled(nTimeTx)`. -/
def isBTC16BIPsEnabled (net : Network) (nTime : UInt32) : Bool :=
  switchedOn net (1685483244 + 5000) (1701307000 + 5000) nTime

/-- `IsProtocolV09(nTime)`. -/
def isProtocolV09 (net : Network) (nTime : UInt32) : Bool :=
  switchedOn net (1685483244 + 6000) (1701307000 + 6000) nTime

/-- `IsProtocolV10(nTime)`. -/
def isProtocolV10 (net : Network) (nTime : UInt32) : Bool :=
  switchedOn net (1685483244 + 7000) (1701307000 + 7000) nTime

/-- `MAX_FUTURE_BLOCK_TIME`. -/
def maxFutureBlockTime : Int := 15 * 60

/-- `MAX_FUTURE_BLOCK_TIME_PREV9`. -/
def maxFutureBlockTimePrev9 : Int := 2 * 60 * 60 * 24 * 2000

/-- The future drift a block time `nTime` is allowed:
`IsProtocolV09(nTime) ? MAX_FUTURE_BLOCK_TIME : MAX_FUTURE_BLOCK_TIME_PREV9`. -/
def maxFutureDrift (net : Network) (nTime : UInt32) : Int :=
  if isProtocolV09 net nTime then maxFutureBlockTime else maxFutureBlockTimePrev9

/-! ## The genesis block -/

/-- `CreateGenesisBlock(pszTimestamp, genesisOutputScript, …)`: one coinbase whose
`scriptSig` pushes `486604799`, `CScriptNum(9999)` and the timestamp text. -/
def createGenesisBlock (pszTimestamp : List UInt8) (genesisOutputScript : CScript)
    (nTimeTx nTimeBlock nNonce nBits : UInt32) (nVersion : Int32) (genesisReward : CAmount) :
    CBlock :=
  let txNew : CTransaction :=
    { vin := [{ prevout := COutPoint.null
                scriptSig := Script.pushInt64 486604799 ++
                  Script.pushData (Script.scriptNumSerialize 9999) ++ Script.pushData pszTimestamp
                nSequence := 0xffffffff
                scriptWitness := ⟨[]⟩ }]
      vout := [⟨genesisReward, genesisOutputScript⟩]
      nVersion := 1
      nTime := nTimeTx
      nLockTime := 0 }
  { header :=
      { nVersion := nVersion
        hashPrevBlock := Uint256.zero
        hashMerkleRoot := (blockMerkleRoot cHash256 [txNew]).1
        nTime := nTimeBlock
        nBits := nBits
        nNonce := nNonce
        nFlags := 0 }
    vtx := [txNew]
    vchBlockSig := []
    fChecked := false }

/-- `CreateGenesisBlock(nTimeTx, nTimeBlock, nNonce, nBits, nVersion, genesisReward)`:
the timestamp of this chain and an empty output script. -/
def createGenesisBlockDefault (nTimeTx nTimeBlock nNonce nBits : UInt32) (nVersion : Int32)
    (genesisReward : CAmount) : CBlock :=
  createGenesisBlock
    ("We Forgot What Dr King Believed In NY Times".toList.map fun c => c.toNat.toUInt8) []
    nTimeTx nTimeBlock nNonce nBits nVersion genesisReward

/-! ## The main network -/

/-- The main network's genesis block. -/
def mainGenesis : CBlock :=
  createGenesisBlockDefault 1522621200 1522621200 211172335 0x1e00ffff 1 0

/-- The asserts of `CMainParams` on its genesis block. -/
example : mainGenesis.header.hashMerkleRoot =
      .ofNat 0x2e655a309a2a8c29a2a13e1ea9f0706a3ac7ef20116b588aa316b4cb270a25d6 ∧
    mainGenesis.header.getHash cHash256 =
      .ofNat 0x000000f40beaad5804ce621cca107c37dccd119e887625fe79fe0f4e161f6219 := by
  decide +kernel

/-- `CMainParams`: the consensus parameters the modelled code reads. -/
def mainConsensus : ConsensusParams where
  hashGenesisBlock := mainGenesis.header.getHash cHash256
  powLimit := .ofNat 0x000000ffffffffffffffffffffffffffffffffffffffffffffffffffffffffff
  bnInitialHashTarget :=
    .ofNat 0x00000000ffffffffffffffffffffffffffffffffffffffffffffffffffffffff
  nStakeTargetSpacing := 1 * 60
  nTargetSpacingWorkMax := 90 * (1 * 60)
  nTargetTimespan := 2 * 60 * 60
  nStakeMinAge := 60 * 60 * 24 * 1
  nStakeMaxAge := 60 * 60 * 24 * 90
  nModifierInterval := 6 * 60
  nCoinbaseMaturity := 100

/-- `CMainParams`, with checkpoints enabled (`DEFAULT_CHECKPOINTS_ENABLED`). -/
def mainParams : ChainParams where
  network := .main
  consensus := mainConsensus
  checkpoints := [
    (0, .ofNat 0x000000f40beaad5804ce621cca107c37dccd119e887625fe79fe0f4e161f6219),
    (1, .ofNat 0x000000002ad7a706fac8eedc222745b191ab97713027ef2d1fe80027fb8eb61f),
    (10, .ofNat 0x0000000036d1d1cfdc4b65aad81e58c1ba2c12077d3f2e0d7356bb2006cc0c89),
    (100, .ofNat 0x000000f3edbd544605bfa03dbcc2f3f1c6aa3aeebb47419630468192bd48c9fe),
    (1000, .ofNat 0x00000077707fec1497a24ec59539f35606868deb92c1b22304155263c8c2a155),
    (2000, .ofNat 0x000000439447fd424b6b699670086320474205bb17f68bfb1664bc4b3e731160),
    (3000, .ofNat 0x00000014737d0e30699fd111a2342bc7eed832e6823a81ae85097c35cf315077),
    (4099, .ofNat 0x000000123e76b6d922f35745f1c6ed7c94b893b5bd91809b15b3c964f94623fa),
    (4100, .ofNat 0xc3909a7db81f1f266a41f7682d11ab28cd0c9b13b02613f024dc6fe6e842fed2),
    (4101, .ofNat 0x22590dcc8bdc4c8dbdcc45e0e4490667837a88ae4819e05ea32c9f6db293267b),
    (4110, .ofNat 0x4f510e77a0f55bf48772c6a1ec41596969ba4028e399f596c9a939e829097549),
    (5000, .ofNat 0xb53a2cbae0b2da2f381cd4778fe04b044569b80fd956e09e106073ddfdb63f37),
    (10000, .ofNat 0x38020087925415205bd182dbe9a8b1f1a0b62c01383cb6d6d747c2d4d17ed8b5),
    (20000, .ofNat 0x6fa9b4241404b896fa6d4bcbc4434c2f9acc5224b53ab548a4dbd521a30383e5),
    (30000, .ofNat 0x8c7e4792f02e8affc807faec3b2db58ae618518336fa9e7c7cfb7acf59993b1b),
    (40000, .ofNat 0xc07084a2a8ad61680077ace58142b7cb669c29ba4e6d228469d5b90d4558e69b),
    (50000, .ofNat 0x0ce71776c368e038547003b2a9374c256807e3248d7c85357a6e14c462cc2376),
    (100000, .ofNat 0xa8f802d130ff27715406337b187bbcf68fd5f6879d929c0c6460325246738e06),
    (200000, .ofNat 0x8803d89c0d3aea27af5e8811194341d2c314e785799c239feb7bcc0858a2462d)]
  fCheckpointsEnabled := true

end Sumcoin
