import ShareCoin.Ext.Records
import ShareCoin.Server.CheckTransaction
import ShareCoin.Wire.Block

/-!
# `validation.cpp`, `shc_block.cpp` — the checks of a block without context

`CheckBlock` of the core makes its checks and then calls the one of the coin, which makes most of
them again in another order and adds some: the weight, the range of the target, the time, and that
no two transactions have one hash. The core checks the root before it knows that the block has a
transaction; the chained forms then read in front of an empty vector, and the call has no value.

`CheckBlockHeader` compares the hash with the target as an unsigned number and does not ask for its
sign or its range. `shc_CheckProofOfWork` does.

The hash functions, the clock and the check of the witness are fields of `CheckEnv`.
-/

namespace ShareCoin.Wire

open Server Ext

/-- What the checks ask for. `powHash` is `keccakhash`, `x11hash` and so on, by algorithm, and
    `checkBlockWitness` is `core_CheckBlockWitness` with the block before it. -/
structure CheckEnv where
  sha256 : List UInt8 → Uint256
  powHash : Nat → List UInt8 → Uint256
  getAdjustedTime : Int
  checkBlockWitness : CBlock → Bool

/-! ## Proof of work -/

section

variable (env : CheckEnv) (algoCoin : Bool)

def getPoWHash (header : CBlockHeader) : Uint256 :=
  let alg := if algoCoin then getVersionAlgo header.nVersion.toUInt32 else algoScrypt
  if alg = algoSha256d then header.getHash (sha256d env.sha256)
  else if algoSkein < alg then env.powHash algoScrypt header.bytes
  else env.powHash alg header.bytes

def checkBlockHeader (header : CBlockHeader) : Bool :=
  ! decide (getuint256 (setCompact header.nBits) < getPoWHash env algoCoin header)

def shcCheckProofOfWork (hash : Uint256) (nBits : UInt32) (bnProofOfWorkLimit : Int) : Bool :=
  let bnTarget := setCompact nBits
  if bnTarget ≤ 0 || bnProofOfWorkLimit < bnTarget then false
  else if getuint256 bnTarget < hash then false
  else true

def shcGenesisProofOfWorkLimit : Int := 2 ^ 236 - 1

def shcProofOfWorkLimit : Int := 2 ^ 235 - 1

def shcHashGenesisBlock : Uint256 :=
  0xa2128a434c48ff41bfb911857639fa24b69012aebf690b12e6dfa799cd5d914e

def shcMaxDriftTime : Int := 720

def shcWorkLimit (header : CBlockHeader) : Int :=
  if header.getHash (sha256d env.sha256) = shcHashGenesisBlock then shcGenesisProofOfWorkLimit
  else shcProofOfWorkLimit

end

/-! ## Sizes and signature operations -/

def shcProtocolVersion : UInt32 := 2000000

def blockSerializeSize (nVersion : UInt32) (block : CBlock) : UInt32 :=
  80 + (getSizeOfCompactSize block.vtx.length +
    (block.vtx.map (CTransaction.getSerializeSize serNetwork nVersion)).sum)

def shcGetBlockWeight (block : CBlock) : Nat :=
  (blockSerializeSize (shcProtocolVersion ||| serializeTransactionNoWitness) block * 3).toNat +
    (blockSerializeSize shcProtocolVersion block).toNat

def maxBlockWeight (iface : CIface) : Nat := iface.maxBlockSize * 4

/-- What an operation counts in `CScript::GetSigOpCount(false)`: `OP_CHECKSIG`,
    `OP_CHECKSIGVERIFY`, `OP_CHECKMULTISIG` and `OP_CHECKMULTISIGVERIFY`. -/
def opSigOps (opcode : UInt8) : UInt32 :=
  if opcode = 0xac || opcode = 0xad then 1
  else if opcode = 0xae || opcode = 0xaf then 20
  else 0

def sigOpLoop : Nat → CScript → UInt32
  | 0, _ => 0
  | k + 1, pc =>
    match getOp pc with
    | none => 0
    | some (opcode, _, pc) => opSigOps opcode + sigOpLoop k pc

def getSigOpCount (script : CScript) : UInt32 := sigOpLoop script.length script

def getLegacySigOpCount (tx : CTransaction) : UInt32 :=
  (tx.vin.map fun txin => getSigOpCount txin.scriptSig).sum +
    (tx.vout.map fun txout => getSigOpCount txout.scriptPubKey).sum

def blockSigOps (block : CBlock) : UInt32 := (block.vtx.map getLegacySigOpCount).sum

/-! ## The block -/

def isCoinBase (tx : CTransaction) : Bool := (asServer tx).isCoinBase

section

variable (env : CheckEnv) (tx : CTransaction)

def checkTx : Bool :=
  checkTransaction
    { getHash := fun _ => txid env.sha256 tx
      getSerializeSize := fun _ => (tx.getSerializeSize serNetwork shcProtocolVersion).toNat }
    shcIface (asServer tx)

/-- The transaction ids of a block. -/
def txids (block : CBlock) : List Uint256 := block.vtx.map (txid env.sha256)

def shcCheckBlock (block : CBlock) : Bool :=
  match block.vtx with
  | [] => false
  | coinbase :: vtx =>
    if maxBlockWeight shcIface < shcGetBlockWeight block then false
    else if ! isCoinBase coinbase then false
    else if ! shcCheckProofOfWork (getPoWHash env true block.toCBlockHeader) block.nBits
        (shcWorkLimit env block.toCBlockHeader) then false
    else if env.getAdjustedTime + shcMaxDriftTime < block.nTime.toNat then false
    else if vtx.any isCoinBase then false
    else if ! block.vtx.all (checkTx env) then false
    else if (txids env block).dedup.length ≠ block.vtx.length then false
    else if shcIface.maxSigops < (blockSigOps block).toNat then false
    -- the block is not empty here, so that every form of the root has a value
    else if buildMerkleTree env.sha256 true block ≠ some block.hashMerkleRoot then false
    else env.checkBlockWitness block

def checkBlock (block : CBlock) : Option Bool :=
  if ! checkBlockHeader env true block.toCBlockHeader then some false
  else
    (buildMerkleTree env.sha256 true block).map fun root =>
      if block.hashMerkleRoot ≠ root then false
      else
        match block.vtx with
        | [] => false
        | coinbase :: vtx =>
          if ! isCoinBase coinbase then false
          else if vtx.any isCoinBase then false
          else if ! block.vtx.all (checkTx env) then false
          else if shcIface.maxSigops < (blockSigOps block).toNat then false
          else shcCheckBlock env block

/-! ## The weight of a transaction -/

end

end ShareCoin.Wire
