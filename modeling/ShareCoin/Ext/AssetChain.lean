import ShareCoin.Ext.Records

/-!
# `asset.cpp` — the chain of an asset

`GetAssetChain` goes back from an update of an asset to the transaction that created it. In each
transaction it looks for the first input that spends an output of the asset, and goes on in the
transaction of that output. `DisconnectAssetTx` registers the last transaction of the chain again.

The loop over the inputs is left with the index of the input, and the index is then compared with
the number of inputs, as a loop that ran to its end would have it. By then the transaction is the
previous one already, so the number is that of its inputs.

The walk back is bounded by `fuel`; a call that has no value ran out of it, or read an output that
the previous transaction does not have.
-/

namespace ShareCoin.Ext

open Wire
open Server hiding CTransaction

def getAsset (tx : CTransaction) : Option CCert :=
  if hasFlag tx.nFlag txfAsset then some tx.certificate else none

/-- One input of the loop of `GetAssetChain`: the previous transaction and the mode of the output,
    if the input spends an output of the asset. -/
def assetInput (env : RecordEnv) (hashIssuer : Uint160) (txin : CTxIn) :
    Option (Option (CTransaction × UInt8)) :=
  match env.getTransaction txin.prevout.hash with
  | none => some none
  | some pTx =>
    (pTx.vout[txin.prevout.n.toNat]?).map fun out =>
      match decodeAssetHash out.scriptPubKey, getAsset pTx with
      | some (mode, hashAsset), some pAsset =>
        if (if mode = opExtNew then hashAsset else pAsset.hashIssuer) ≠ hashIssuer then none
        else some (pTx, mode)
      | _, _ => none

/-- The loop of `GetAssetChain` over the inputs, with the index of the input that ends it. -/
def assetInputs (env : RecordEnv) (hashIssuer : Uint160) :
    Nat → List CTxIn → Option (Option (Nat × CTransaction × UInt8))
  | _, [] => some none
  | i, txin :: vin =>
    match assetInput env hashIssuer txin with
    | none => none
    | some none => assetInputs env hashIssuer (i + 1) vin
    | some (some (pTx, mode)) => some (some (i, pTx, mode))

def assetChainLoop (env : RecordEnv) :
    Nat → CTransaction → Uint160 → List CTransaction → Option (Option (List CTransaction))
  | 0, _, _, _ => none
  | fuel + 1, tx, hashIssuer, vTx =>
    match assetInputs env hashIssuer 0 tx.vin with
    | none => none
    | some none => some none
    | some (some (i, pTx, mode)) =>
      if i = pTx.vin.length then some none
      else if mode = opExtUpdate then
        assetChainLoop env fuel pTx pTx.certificate.hashIssuer (pTx.copy :: vTx)
      else some (some (pTx.copy :: vTx))

def getAssetChain (env : RecordEnv) (fuel : Nat) (txIn : CTransaction) :
    Option (Option (List CTransaction)) :=
  (assetOutput txIn).bind fun
    | none => some none
    | some (_, mode, _) =>
      if mode = opExtNew then some (some [])
      else assetChainLoop env fuel txIn txIn.certificate.hashIssuer []

def disconnectAssetTx (env : RecordEnv) (fuel : Nat) (wallet : Wallet) (tx : CTransaction) :
    Option (Bool × Wallet) :=
  match getAsset tx with
  | none => some (false, wallet)
  | some _ =>
    (assetOutput tx).bind fun
      | none => some (false, wallet)
      | some (_, mode, hAsset) =>
        if mode = opExtNew then
          some (true, { wallet with mapAsset := Function.update wallet.mapAsset hAsset none })
        else
          (getAssetChain env fuel tx).bind fun
            | none => some (false, wallet)
            | some vTx => do
              let first ← vTx.head?
              let last ← vTx.getLast?
              let hAsset := recordHash env (CCert.codec.put first.certificate)
              some (true, { wallet with
                mapAsset :=
                  Function.update wallet.mapAsset hAsset (some (last.getHash env.hash)) })

end ShareCoin.Ext
