import ShareCoin.Wallet.TxCreator

/-!
# `wallet.cpp` — the selection of coins

`SelectCoins_Avg` leaves out coins that are larger than needed, small coins once there is enough,
and large coins as long as those after them suffice. It shuffles the coins first; the functions here
start with the shuffled list. The order of coins of one value, which `sort` leaves open, is a
parameter.
-/

namespace ShareCoin.Wallet

def cent : Int := 1000000

structure ValueSort where
  sort : List Coin → List Coin
  perm : ∀ coins, (sort coins).Perm coins
  sorted : ∀ coins, (sort coins).Pairwise fun a b => b.value ≤ a.value

def insertAll (coins : List Coin) : List Coin := coins.foldl (fun s coin => insertCoin coin s) []

def lowerMaxVal (nTargetValue max_val : Int) (coin : Coin) : Int :=
  if coin.value > nTargetValue then if max_val = 0 then coin.value else min max_val coin.value
  else max_val

def maxVal (nTargetValue : Int) (vCoins : List Coin) : Int :=
  vCoins.foldl (lowerMaxVal nTargetValue) 0

def avgVal (nTargetValue : Int) (vCoins : List Coin) : Int :=
  let low := vCoins.filter fun coin => ! decide (coin.value > nTargetValue)
  let avg_val :=
    if low.length ≠ 0 then ((low.map Coin.value).sum).tdiv low.length else nTargetValue
  min avg_val (nTargetValue.tdiv 4)

/-- The loop that fills `vValue`. -/
def usefulCoins (nTargetValue max_val avg_val : Int) : Int → List Coin → List Coin
  | _, [] => []
  | nTotalValue, coin :: rest =>
    if max_val ≠ 0 ∧ coin.value > max_val then
      usefulCoins nTargetValue max_val avg_val nTotalValue rest
    else if nTotalValue - cent > nTargetValue ∧ coin.value < avg_val then
      usefulCoins nTargetValue max_val avg_val nTotalValue rest
    else coin :: usefulCoins nTargetValue max_val avg_val (nTotalValue + coin.value) rest

def takeCoins (nTargetValue avg_val : Int) : Int → Int → List Coin → List Coin × Int
  | _, nValueRet, [] => ([], nValueRet)
  | nTotalValue, nValueRet, coin :: rest =>
    let nTotalValue := nTotalValue - coin.value
    if coin.value > avg_val ∧ nTotalValue > nTargetValue - nValueRet then
      takeCoins nTargetValue avg_val nTotalValue nValueRet rest
    else
      let nValueRet := nValueRet + coin.value
      if nValueRet ≥ nTargetValue then ([coin], nValueRet)
      else
        let (taken, nValueRet) := takeCoins nTargetValue avg_val nTotalValue nValueRet rest
        (coin :: taken, nValueRet)

def selectCoinsAvg (o : ValueSort) (nTargetValue : Int) (vCoins : List Coin) :
    Option (List Coin × Int) :=
  match vCoins.find? fun coin => coin.value == nTargetValue with
  | some coin => some ([coin], coin.value)
  | none =>
    let avg_val := avgVal nTargetValue vCoins
    let vValue := usefulCoins nTargetValue (maxVal nTargetValue vCoins) avg_val 0 vCoins
    let (taken, nValueRet) :=
      takeCoins nTargetValue avg_val ((vValue.map Coin.value).sum) 0 (o.sort vValue)
    if nValueRet < nTargetValue then none else some (insertAll taken, nValueRet)

end ShareCoin.Wallet
