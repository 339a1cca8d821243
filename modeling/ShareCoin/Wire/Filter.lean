import ShareCoin.Server.VerifyScript
import ShareCoin.Wire.Transaction

/-!
# `bloom.cpp`, `net.h` — Bloom filters

A peer loads a filter with `filterload`, and the node relays to it the transactions that are
relevant to the filter. The filter is an array of bits; a key sets one bit for each hash function.
Two flags, kept beside the array, answer for it: a full filter takes no keys and contains all of
them, an empty one contains none. `UpdateEmptyFull` computes the flags from the array.

`CBloomFilter(ifaceIndex)` is full and has no array ("disabled to start with"); reading a filter
from a message replaces the array and leaves the flags as they are. `SetBloomFilter` takes the copy
of a filter that was read and updates its flags before the filter is used.
-/

namespace ShareCoin.Wire

open Server

/-! ## `MurmurHash3` -/

def rotl32 (x r : UInt32) : UInt32 := (x <<< r) ||| (x >>> (32 - r))

/-- The mixing of a word into the hash, up to the rotation of the hash. -/
def murmurWord (k1 : UInt32) : UInt32 := rotl32 (k1 * 0xcc9e2d51) 15 * 0x1b873593

/-- The switch on the bytes after the last block. -/
def murmurTail (h1 : UInt32) : List UInt8 → UInt32
  | [a] => h1 ^^^ murmurWord a.toUInt32
  | [a, b] => h1 ^^^ murmurWord ((b.toUInt32 <<< 8) ^^^ a.toUInt32)
  | [a, b, c] => h1 ^^^ murmurWord ((c.toUInt32 <<< 16) ^^^ (b.toUInt32 <<< 8) ^^^ a.toUInt32)
  | _ => h1

/-- The blocks of four bytes, the lowest byte first, and the tail. -/
def murmurBlocks : UInt32 → List UInt8 → UInt32
  | h1, a :: b :: c :: d :: rest =>
    let k1 := a.toUInt32 ||| (b.toUInt32 <<< 8) ||| (c.toUInt32 <<< 16) ||| (d.toUInt32 <<< 24)
    murmurBlocks (rotl32 (h1 ^^^ murmurWord k1) 13 * 5 + 0xe6546b64) rest
  | h1, tail => murmurTail h1 tail

def murmurHash3 (nHashSeed : UInt32) (vDataToHash : List UInt8) : UInt32 :=
  let h1 := murmurBlocks nHashSeed vDataToHash ^^^ UInt32.ofNat vDataToHash.length
  let h1 := (h1 ^^^ (h1 >>> 16)) * 0x85ebca6b
  let h1 := (h1 ^^^ (h1 >>> 13)) * 0xc2b2ae35
  h1 ^^^ (h1 >>> 16)

/-! ## `CBloomFilter` -/

def bloomUpdateAll : UInt8 := 1

def bloomUpdateP2pubkeyOnly : UInt8 := 2

def bloomUpdateMask : UInt8 := 3

structure CBloomFilter where
  vData : List UInt8
  isFull : Bool
  isEmpty : Bool
  nHashFuncs : UInt32
  nTweak : UInt32
  nFlags : UInt8
  deriving DecidableEq

def bitMask : List UInt8 := [0x01, 0x02, 0x04, 0x08, 0x10, 0x20, 0x40, 0x80]

def setBit (vData : List UInt8) (nIndex : Nat) : List UInt8 :=
  vData.modify (nIndex / 8) (· ||| bitMask.getD (nIndex % 8) 0)

def checkBit (vData : List UInt8) (nIndex : Nat) : Bool :=
  vData.getD (nIndex / 8) 0 &&& bitMask.getD (nIndex % 8) 0 != 0

namespace CBloomFilter

/-- `CBloomFilter::Hash`, for an array of `size` bytes. The source divides by zero where that is
    zero; the flags keep it from doing so. -/
def hash (nTweak : UInt32) (size nHashNum : Nat) (vKey : List UInt8) : Nat :=
  (murmurHash3 (UInt32.ofNat nHashNum * 0xFBA4C795 + nTweak) vKey).toNat % (size * 8)

section

variable (f : CBloomFilter) (vKey : List UInt8)

def insert : CBloomFilter :=
  if f.isFull then f
  else
    { f with
      vData := (List.range f.nHashFuncs.toNat).foldl
        (fun vData i => setBit vData (hash f.nTweak vData.length i vKey)) f.vData
      isEmpty := false }

def contains : Bool :=
  if f.isFull then true
  else if f.isEmpty then false
  else (List.range f.nHashFuncs.toNat).all fun i =>
    checkBit f.vData (hash f.nTweak f.vData.length i vKey)

def updateEmptyFull : CBloomFilter :=
  { f with
    isFull := f.vData.all (· == 0xff)
    isEmpty := f.vData.all (· == 0) }

end

/-- The loop over the operations of a script: whether one of them pushes data that the filter
    contains. `k` bounds the operations. -/
def matchesLoop (f : CBloomFilter) : Nat → CScript → Bool
  | 0, _ => false
  | k + 1, pc =>
    match getOp pc with
    | none => false
    | some (_, data, pc) => (data.length != 0 && f.contains data) || matchesLoop f k pc

def matchesScript (f : CBloomFilter) (script : CScript) : Bool :=
  f.matchesLoop script.length script

section

variable (templates : CScript → Option (TemplateType × List Valtype))

def addsOutput (f : CBloomFilter) (scriptPubKey : CScript) : Bool :=
  if f.nFlags &&& bloomUpdateMask = bloomUpdateAll then true
  else if f.nFlags &&& bloomUpdateMask = bloomUpdateP2pubkeyOnly then
    match solver templates scriptPubKey with
    | some (.template .pubkey, _) | some (.template .multisig, _) => true
    | _ => false
  else false

/-- One pass of the loop over the outputs: `fFound` and the filter afterwards. -/
def matchOutput (fUpdate : Bool) (txHash : Uint256) (i : Nat) (txout : CTxOut)
    (s : Bool × CBloomFilter) : Bool × CBloomFilter :=
  if s.2.matchesScript txout.scriptPubKey then
    (true, if fUpdate && s.2.addsOutput templates txout.scriptPubKey then
      s.2.insert (outPoint.put ⟨txHash, UInt32.ofNat i⟩)
    else s.2)
  else s

def matchOutputs (fUpdate : Bool) (txHash : Uint256) :
    List CTxOut → Nat → Bool × CBloomFilter → Bool × CBloomFilter
  | [], _, s => s
  | txout :: vout, i, s =>
    matchOutputs fUpdate txHash vout (i + 1) (matchOutput templates fUpdate txHash i txout s)

/-- The loop over the inputs. -/
def matchesInputs (f : CBloomFilter) (vin : List CTxIn) : Bool :=
  vin.any fun txin =>
    f.contains (outPoint.put txin.prevout) || f.matchesScript txin.scriptSig

def isRelevant (f : CBloomFilter) (tx : CTransaction) (txHash : Uint256) (fUpdate : Bool) :
    Bool × CBloomFilter :=
  if f.isFull then (true, f)
  else if f.isEmpty then (false, f)
  else
    let (fFound, f) :=
      matchOutputs templates fUpdate txHash tx.vout 0 (f.contains (u256.put txHash), f)
    (fFound || f.matchesInputs tx.vin, f)

end

end CBloomFilter

/-! ## Use -/

/-- What a filter goes through. -/
inductive FilterOp where
  | insert (vKey : List UInt8)
  | updateEmptyFull
  | isRelevant (tx : CTransaction) (txHash : Uint256)

section

variable (templates : CScript → Option (TemplateType × List Valtype)) (f : CBloomFilter)
include templates

def FilterOp.apply :
    FilterOp → CBloomFilter
  | .insert vKey => f.insert vKey
  | .updateEmptyFull => f.updateEmptyFull
  | .isRelevant tx txHash => (f.isRelevant templates tx txHash true).2

/-- The filter after it was used. -/
def runFilter (ops : List FilterOp) : CBloomFilter :=
  ops.foldl (FilterOp.apply templates) f

end

/-- The filter that was read from a message into `CBloomFilter(ifaceIndex)`, which does not set
    `isEmpty`. -/
def readFilter (isEmpty : Bool) (vData : List UInt8) (nHashFuncs nTweak : UInt32) (nFlags : UInt8) :
    CBloomFilter :=
  { vData, nHashFuncs, nTweak, nFlags, isFull := true, isEmpty }

end ShareCoin.Wire
