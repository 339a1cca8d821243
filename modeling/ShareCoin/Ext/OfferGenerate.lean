import ShareCoin.Ext.Offers

/-!
# `offer.cpp` — the generation of an exchange

`CommitGenerateOffer` hands the prepared transaction to the wallet of the other coin, after it has
checked the exchange against the offer and its acceptance. It returns a `bool`, and some of its
returns are error codes, which are converted.
-/

namespace ShareCoin.Ext

open Wire
open Server (Uint160 Uint256)

/-- The error codes that are returned; none of them is zero. -/
inductive GenerateError where
  | noEnt | inval | again | opNotSupp | stale | canceled
  deriving DecidableEq

inductive GenerateReturn where
  | bool (ok : Bool)
  | code (err : GenerateError)
  deriving DecidableEq

/-- The `bool` that the caller reads. -/
def GenerateReturn.toBool : GenerateReturn → Bool
  | bool ok => ok
  | code _ => true

/-- What the generation takes from elsewhere. -/
structure GenerateEnv where
  altIface : COffer → Bool
  /-- `shtime_after` at the present time. -/
  after : UInt64 → Bool
  altTransaction : Uint256 → Option CTransaction
  poolTx : Option (Uint256 → Option CTransaction)
  isMine : CTransaction → Bool
  getAltTx : COffer → Option CTransaction
  getDebit : CTransaction → Int64
  nAltFee : COffer → Int64
  commitTransaction : CTransaction → Bool

def getTxOfAcceptOffer (env : OfferEnv) (t : OfferTables) (hashOffer : Uint160) :
    Option CTransaction := do
  let hashTx ← t.mapOfferAccept hashOffer
  let tx ← env.getTransaction hashTx
  if ! isOfferTx tx then none else some tx

/-- The fields that an exchange shares with the offer and with its acceptance. -/
def SameTerms (offer acc gen : COffer) : Prop :=
  (offer.nMinValue = gen.nMinValue ∧ offer.nMaxValue = gen.nMaxValue ∧ offer.nRate = gen.nRate ∧
    offer.hashColor = gen.hashColor ∧ offer.vchPayAddr = gen.vchPayAddr ∧
    offer.vchPayCoin = gen.vchPayCoin ∧ offer.vchXferCoin = gen.vchXferCoin) ∧
  acc.hSinkOut = gen.hSinkOut ∧ acc.nValue = gen.nValue ∧ acc.nMinValue = gen.nMinValue ∧
    acc.nMaxValue = gen.nMaxValue ∧ acc.nRate = gen.nRate ∧ acc.hashColor = gen.hashColor ∧
    acc.hPayTx = gen.hPayTx ∧ acc.hSinkTx = gen.hSinkTx ∧ acc.vchPayAddr = gen.vchPayAddr ∧
    acc.vchXferAddr = gen.vchXferAddr ∧ acc.vchPayCoin = gen.vchPayCoin ∧
    acc.vchXferCoin = gen.vchXferCoin ∧ acc.hashOffer = gen.hashOffer

instance (offer acc gen : COffer) : Decidable (SameTerms offer acc gen) := by
  unfold SameTerms
  infer_instance

def offerVerifyGenerateOffer (env : OfferEnv) (t : OfferTables) (gen : COffer) :
    Option GenerateError :=
  match getTxOfOffer env t gen.hashOffer with
  | none => some .noEnt
  | some txOffer =>
    match getOffer txOffer, getTxOfAcceptOffer env t gen.hashOffer with
    | none, _ => some .inval
    | _, none => some .again
    | some offer, some txAccept =>
      -- `IsOfferTx` has seen the flag, so the pointer to the offer of `txAccept` is not null
      let acc := txAccept.offer
      if offer.nType &&& 16 = 0 ∨ acc.nType &&& 16 = 0 ∨ gen.nType &&& 16 = 0 then some .opNotSupp
      else if ¬ SameTerms offer acc gen then some .inval
      else if offerHash env offer ≠ gen.hashOffer then some .inval
      else none

section

variable (env : OfferEnv) (g : GenerateEnv)

def commitAltTx (offer : COffer) : GenerateReturn :=
  match g.altTransaction offer.hSinkTx <|> g.poolTx.bind (· offer.hSinkTx) with
  | none => .bool false
  | some txSink =>
    if txSink.vout.length < 1 ∨ ! g.isMine txSink then .bool true
    else
      match g.getAltTx offer with
      | none => .bool false
      | some altTx =>
        if offer.hXferTx ≠ altTx.getHash env.hash then .bool false
        else if (g.altTransaction (altTx.getHash env.hash)).isSome then .bool true
        else if g.getDebit altTx < g.nAltFee offer then .bool false
        else if ! g.commitTransaction altTx then .code .canceled
        else .bool true

def offerExpireSpan : Int := 1440

def GenerateEnv.isExpired (offer : COffer) : Bool :=
  offer.tExpire != 0 && g.after offer.tExpire

def commitGenerateOffer (t : OfferTables) (offer : COffer) : GenerateReturn :=
  if ! g.altIface offer then .bool true
  else if g.isExpired offer then .code .stale
  else if offerExpireSpan < env.shutime offer.tExpire - env.now then .code .inval
  else
    match offerVerifyGenerateOffer env t offer with
    | some err => .code err
    | none => commitAltTx env g offer

/-- The surroundings of `CommitOfferTx` with the generation of the exchange. -/
def OfferEnv.generating : OfferEnv :=
  { env with commitGenerateOffer := fun t offer => (Ext.commitGenerateOffer env g t offer).toBool }

end

end ShareCoin.Ext
