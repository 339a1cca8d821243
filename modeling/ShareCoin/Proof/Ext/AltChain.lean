import ShareCoin.Ext.AltChain
import ShareCoin.Lib.Walk
import ShareCoin.Proof.Ext.Records

/-!
# Where the walk through the pool ends

The walk starts at the block that was the best one before, not at the one that is connected, and
takes pooled blocks of any color. So the tip that it leaves follows the connected block only if the
connected block is itself the first pooled one at the start, and the first pooled blocks from there
on are of its color. For a new color the start is the null hash, which the first blocks of all
colors follow.
-/

namespace ShareCoin.Ext

open Lib Wire Function
open Server (Uint160 Uint256)
open Relation (ReflTransGen TransGen)
open List Option

variable {env : RecordEnv} {vTx : List CTransaction} {alts : List CAltChain}

/-! ## Chains of blocks -/

def pooledAlts (vTx : List CTransaction) : List CAltChain :=
  (vTx.filter isAltChainTx).filterMap getAltChain

section

variable (env : RecordEnv) (alts : List CAltChain)

/-- Some block of the list has the one hash and names the other as its previous block. -/
def Links (prev hash : Uint256) : Prop :=
  ∃ alt ∈ alts, alt.block.hashPrevBlock = prev ∧ altBlockHash env alt.block = hash

def NoCycle : Prop := ∀ a, ¬ TransGen (Links env alts) a a

def HashesApart : Prop :=
  ∀ x ∈ alts, ∀ y ∈ alts, altBlockHash env x.block = altBlockHash env y.block → x.block = y.block

end

def coloredAlts (vTx : List CTransaction) (hColor : Uint160) : List CAltChain :=
  (pooledAlts vTx).filter fun alt => alt.hColor = hColor

theorem Links.mono {alts alts' : List CAltChain} (hsub : alts ⊆ alts') {prev hash : Uint256}
    (h : Links env alts prev hash) : Links env alts' prev hash := by
  obtain ⟨alt, hmem, hlink⟩ := h
  exact ⟨alt, hsub hmem, hlink⟩

theorem HashesApart.one_parent (h : HashesApart env alts) (prev prev' hash : Uint256)
    (hprev : Links env alts prev hash) (hprev' : Links env alts prev' hash) : prev = prev' := by
  obtain ⟨alt, hmem, rfl, hhash⟩ := hprev
  obtain ⟨alt', hmem', rfl, hhash'⟩ := hprev'
  rw [h alt hmem alt' hmem' (hhash.trans hhash'.symm)]

/-! ## The walk -/

theorem nextPooled_links {prev hash : Uint256} (h : nextPooled env vTx prev = some hash) :
    Links env (pooledAlts vTx) prev hash := by
  obtain ⟨tx, hmem, htx⟩ := exists_of_findSome?_eq_some h
  cases halt : isAltChainTx tx with
  | false => simp [halt] at htx
  | true =>
    simp only [halt, Bool.not_true, Bool.false_eq_true, if_false] at htx
    obtain ⟨alt, hget, htx⟩ := bind_eq_some_iff.mp htx
    split_ifs at htx with hprev
    exact ⟨alt, mem_filterMap.mpr ⟨tx, mem_filter.mpr ⟨hmem, halt⟩, hget⟩, hprev, some.inj htx⟩

theorem reorganizeLoop_eq (env : RecordEnv) (vTx : List CTransaction) (fuel : Nat)
    (hPrevBlock : Uint256) (entry : Option Uint256) :
    reorganizeLoop env vTx fuel hPrevBlock entry =
      (follow (nextPooled env vTx) fuel hPrevBlock).map fun tip =>
        if nextPooled env vTx hPrevBlock = none then entry else some tip := by
  induction fuel generalizing hPrevBlock entry with
  | zero => rfl
  | succ fuel ih =>
    rw [reorganizeLoop, follow]
    cases hnext : nextPooled env vTx hPrevBlock with
    | none => rfl
    | some hash =>
      simp only [ih, reduceCtorEq, if_false]
      cases hend : follow (nextPooled env vTx) fuel hash with
      | none => rfl
      | some tip =>
        simp only [map_some, some.injEq]
        split_ifs with hlast
        · rw [follow_of_end hlast hend]
        · rfl

theorem follow_pool_isSome (hacyclic : NoCycle env (pooledAlts vTx)) {fuel : Nat}
    (hfuel : vTx.length < fuel) (start : Uint256) :
    (follow (nextPooled env vTx) fuel start).isSome = true := by
  have hplaces (x y : Uint256) (_ : ReflTransGen (Next (nextPooled env vTx)) start x)
      (h : nextPooled env vTx x = some y) :
      y ∈ (pooledAlts vTx).map fun alt => altBlockHash env alt.block := by
    obtain ⟨alt, hmem, -, rfl⟩ := nextPooled_links h
    exact List.mem_map_of_mem hmem
  have hsteps : ∀ a, ¬ TransGen _ a a := fun a ha =>
    hacyclic a (TransGen.mono (fun _ _ => nextPooled_links) _ _ ha)
  refine follow_isSome hsteps hplaces ?_
  calc ((pooledAlts vTx).map fun alt => altBlockHash env alt.block).length
      = (pooledAlts vTx).length := length_map _
    _ ≤ (vTx.filter isAltChainTx).length := length_filterMap_le _ _
    _ ≤ vTx.length := length_filter_le _ _
    _ < fuel := hfuel

/-! ## Connecting a block -/

def walkStart (t : ColorTables) (hColor : Uint160) : Uint256 := (t.mapColor hColor).getD 0

theorem isOrphanBlock_eq (t : ColorTables) (alt : CAltChain) (hashBlock : Uint256) :
    isOrphanBlock t alt hashBlock = decide (alt.block.hashPrevBlock ≠ hashBlock) := by
  by_cases hprev : alt.block.hashPrevBlock = hashBlock
  · simp [isOrphanBlock, hprev]
  · simp [isOrphanBlock, hprev]

theorem connectAltChainTx_cases {fuel : Nat} {t t' : ColorTables} {tx : CTransaction}
    {alt : CAltChain} {ok : Bool} (hget : getAltChain tx = some alt)
    (h : connectAltChainTx env fuel t vTx tx = some (ok, t')) :
    (alt.block.hashPrevBlock = walkStart t alt.hColor ∧
      t'.mapColor = update t.mapColor alt.hColor (some (altBlockHash env alt.block)) ∧
      ∃ entry, reorganizeLoop env vTx fuel (walkStart t alt.hColor) none = some entry ∧
        t'.mapColorPool = update t.mapColorPool alt.hColor entry) ∨
    ok = false ∧ alt.block.hashPrevBlock ≠ walkStart t alt.hColor ∧ t' = t := by
  have hconnect (s : ColorTables) (hashBlock : Uint256)
      (h : (reorganizeColorPoolMap env fuel { s with
        mapColor := update s.mapColor alt.hColor (some (altBlockHash env alt.block)) }
          vTx alt.hColor hashBlock).map (fun t => (true, t)) = some (ok, t'))
      (hcolor : s.mapColor = t.mapColor) (hpool : s.mapColorPool = t.mapColorPool) :
      t'.mapColor = update t.mapColor alt.hColor (some (altBlockHash env alt.block)) ∧
        ∃ entry, reorganizeLoop env vTx fuel hashBlock none = some entry ∧
          t'.mapColorPool = update t.mapColorPool alt.hColor entry := by
    obtain ⟨s', hs', heq⟩ := map_eq_some_iff.mp h
    obtain ⟨entry, hentry, rfl⟩ := map_eq_some_iff.mp hs'
    obtain ⟨-, rfl⟩ := Prod.mk.inj heq
    rw [← hcolor, ← hpool]
    exact ⟨rfl, entry, hentry, rfl⟩
  simp only [connectAltChainTx, hget] at h
  unfold walkStart
  cases hbest : t.mapColor alt.hColor with
  | none =>
    simp only [hbest] at h
    obtain ⟨r, hr, h⟩ := bind_eq_some_iff.mp h
    rw [establishColor] at hr
    split_ifs at hr with hprev
    · cases hr
      cases h
      exact .inr ⟨rfl, hprev, rfl⟩
    · obtain ⟨altTx, -, hr⟩ := bind_eq_some_iff.mp hr
      obtain ⟨out, -, hr⟩ := bind_eq_some_iff.mp hr
      obtain ⟨opt, -, hr⟩ := bind_eq_some_iff.mp hr
      cases hr
      exact .inl ⟨not_not.mp hprev, hconnect _ 0 h rfl rfl⟩
  | some hashBlock =>
    simp only [hbest, isOrphanBlock_eq] at h
    split_ifs at h with hprev
    · cases h
      exact .inr ⟨rfl, of_decide_eq_true hprev, rfl⟩
    · exact .inl ⟨by simpa using hprev, hconnect t hashBlock h rfl rfl⟩

section

variable (env : RecordEnv) (vTx : List CTransaction) (alt : CAltChain)

/-- The best block of the color is the connected one, and the tip in the pool follows it through
    pooled blocks of the color. -/
def ColorTip (t' : ColorTables) : Prop :=
  t'.mapColor alt.hColor = some (altBlockHash env alt.block) ∧
    ∀ tip, t'.mapColorPool alt.hColor = some tip →
      TransGen (Links env (coloredAlts vTx alt.hColor)) (altBlockHash env alt.block) tip

/-- Nothing in the pool follows the block that was the best one, or the first that does is the
    connected block, it is not the last, and the first pooled blocks after it are of its color. -/
def PoolFollows (t : ColorTables) : Prop :=
  let next := nextPooled env vTx
  next (walkStart t alt.hColor) = none ∨
    next (walkStart t alt.hColor) = some (altBlockHash env alt.block) ∧
    next (altBlockHash env alt.block) ≠ none ∧
    ∀ x y, ReflTransGen (Next next) (altBlockHash env alt.block) x → next x = some y →
      Links env (coloredAlts vTx alt.hColor) x y

end

section

variable {vTx : List CTransaction} {alt : CAltChain} {t : ColorTables} {tip : Uint256}

theorem coloredAlts_subset (hColor : Uint160) : coloredAlts vTx hColor ⊆ alt :: pooledAlts vTx :=
  List.Subset.trans filter_sublist.subset (subset_cons_self _ _)

theorem PoolFollows.descends (h : PoolFollows env vTx alt t)
    (hstart : nextPooled env vTx (walkStart t alt.hColor) ≠ none)
    (htip : ReflTransGen (Next (nextPooled env vTx)) (walkStart t alt.hColor) tip)
    (hend : nextPooled env vTx tip = none) :
    TransGen (Links env (coloredAlts vTx alt.hColor)) (altBlockHash env alt.block) tip := by
  rcases h with hnone | ⟨hfirst, hmore, hcolor⟩
  · exact absurd hnone hstart
  have hpath := walk_tail htip hend hfirst
  rcases Relation.reflTransGen_iff_eq_or_transGen.mp (walk_lift hpath hcolor) with heq | hdesc
  · rw [heq] at hend
    exact absurd hend hmore
  · exact hdesc

theorem poolFollows_of_descends (hacyclic : NoCycle env (alt :: pooledAlts vTx))
    (hapart : HashesApart env (alt :: pooledAlts vTx))
    (hprev : alt.block.hashPrevBlock = walkStart t alt.hColor)
    (htip : ReflTransGen (Next (nextPooled env vTx)) (walkStart t alt.hColor) tip)
    (hend : nextPooled env vTx tip = none)
    (hdesc : TransGen (Links env (coloredAlts vTx alt.hColor)) (altBlockHash env alt.block) tip) :
    PoolFollows env vTx alt t := by
  have hnext {x y : Uint256} (h : nextPooled env vTx x = some y) :
      Links env (alt :: pooledAlts vTx) x y :=
    (nextPooled_links h).mono (subset_cons_self _ _)
  have hcolored {x y : Uint256} (h : Links env (coloredAlts vTx alt.hColor) x y) :
      Links env (alt :: pooledAlts vTx) x y := h.mono (coloredAlts_subset _)
  have hwalk {x y : Uint256} (h : ReflTransGen (Next (nextPooled env vTx)) x y) :
      ReflTransGen (Links env (alt :: pooledAlts vTx)) x y :=
    ReflTransGen.mono (fun _ _ => hnext) _ _ h
  have hconnected : Links env (alt :: pooledAlts vTx) (walkStart t alt.hColor)
      (altBlockHash env alt.block) := ⟨alt, mem_cons_self, hprev, rfl⟩
  cases hfirst : nextPooled env vTx (walkStart t alt.hColor) with
  | none => exact .inl hfirst
  | some first =>
    have hpath := walk_tail htip hend hfirst
    obtain rfl : first = altBlockHash env alt.block :=
      sibling_eq hapart.one_parent hacyclic (hnext hfirst) hconnected (hwalk hpath)
        (ReflTransGen.mono (fun _ _ => hcolored) _ _ hdesc.to_reflTransGen)
    refine .inr ⟨hfirst, fun hlast => ?_, fun x y hx hxy => ?_⟩
    · -- the connected block would be the tip, and come before itself
      rcases hpath.cases_head with heq | ⟨next, hstep, -⟩
      · rw [← heq] at hdesc
        exact hacyclic _ (TransGen.mono (fun _ _ => hcolored) _ _ hdesc)
      · rw [Next, hlast] at hstep
        cases hstep
    · have hyend := walk_tail (walk_through hpath hend hx) hend hxy
      exact on_path hapart.one_parent hacyclic (fun _ _ => hcolored) hdesc.to_reflTransGen
        (hwalk hx) (hnext hxy) (hwalk hyend)

end

/-- **The tip of a color.** A pool without cycles is walked through. After a block was connected,
    the tip in the pool follows it in its color if and only if the pool follows it. -/
theorem color_pool_tip_iff (env : RecordEnv) (vTx : List CTransaction) (fuel : Nat)
    (hpool : NoCycle env (pooledAlts vTx)) (hfuel : vTx.length < fuel) :
    (∀ t hColor hashBlock, ∃ t',
      reorganizeColorPoolMap env fuel t vTx hColor hashBlock = some t') ∧
    ∀ t t' tx alt, getAltChain tx = some alt →
      connectAltChainTx env fuel t vTx tx = some (true, t') →
      NoCycle env (alt :: pooledAlts vTx) → HashesApart env (alt :: pooledAlts vTx) →
      (ColorTip env vTx alt t' ↔ PoolFollows env vTx alt t) := by
  constructor
  · intro t hColor hashBlock
    obtain ⟨tip, htip⟩ := isSome_iff_exists.mp (follow_pool_isSome hpool hfuel hashBlock)
    rw [reorganizeColorPoolMap, reorganizeLoop_eq, htip]
    exact ⟨_, rfl⟩
  · intro t t' tx alt hget hconnect hacyclic hapart
    obtain ⟨hprev, hcolor, entry, hloop, hpool⟩ :=
      (connectAltChainTx_cases hget hconnect).resolve_right fun h => nomatch h.1
    rw [reorganizeLoop_eq] at hloop
    obtain ⟨tip, htip, rfl⟩ := map_eq_some_iff.mp hloop
    obtain ⟨hpath, hend⟩ := follow_end htip
    rw [ColorTip, hcolor, hpool, update_self, update_self, and_iff_right rfl]
    by_cases hstart : nextPooled env vTx (walkStart t alt.hColor) = none
    · rw [if_pos hstart]
      exact iff_of_true (fun _ h => nomatch h) (.inl hstart)
    · rw [if_neg hstart]
      simp only [some.injEq, forall_eq']
      exact ⟨poolFollows_of_descends hacyclic hapart hprev hpath hend,
        fun h => h.descends hstart hpath hend⟩

/-- A transaction with a block of a color. The flag tells the blocks with one previous block
    apart. -/
def colorTx (hColor : Uint160) (nFlag : UInt32) (hashPrevBlock : Uint256) : CTransaction where
  nFlag := 0x8001
  vin := []
  vout := [{ nValue := 1, scriptPubKey :=
    [opExtUpdate, 0x54, 0xa9, 0x14, 7] ++ List.replicate 19 0 ++ [0x6d, 0x51] }]
  vtxinwit := []
  nLockTime := 0
  altchain :=
    { hColor := hColor
      block := { nFlag := nFlag, hashPrevBlock := hashPrevBlock }
      vtx := [{ vout := [{ nValue := 0, scriptPubKey := [] }] }] }

theorem noCycle_of_lt
    (h : ∀ alt ∈ alts, alt.block.hashPrevBlock.toNat < (altBlockHash env alt.block).toNat) :
    NoCycle env alts := by
  have hlt {a b : Uint256} (hab : TransGen (Links env alts) a b) : a.toNat < b.toNat := by
    induction hab with
    | single hlink =>
      obtain ⟨alt, hmem, rfl, rfl⟩ := hlink
      exact h alt hmem
    | tail _ hlink ih =>
      obtain ⟨alt, hmem, rfl, rfl⟩ := hlink
      exact ih.trans (h alt hmem)
  exact fun a ha => (hlt ha).false

/-- The first block of a color, still in the pool, and the one that follows it there. -/
def followedPool : List CTransaction := [colorTx 1 1 0, colorTx 1 3 1]

theorem followed_color_tip :
    ∃ t', connectAltChainTx oneActivation 3 .empty followedPool (colorTx 1 1 0) = some (true, t') ∧
      t'.mapColorPool 1 ≠ none ∧
      ColorTip oneActivation followedPool (colorTx 1 1 0).altchain t' := by
  have hpooled : pooledAlts followedPool =
      [(colorTx 1 1 0).altchain, (colorTx 1 3 1).altchain] := rfl
  have hacyclic : NoCycle oneActivation ((colorTx 1 1 0).altchain :: pooledAlts followedPool) :=
    noCycle_of_lt (by rw [hpooled]; decide)
  refine ⟨_, rfl, by decide, ?_⟩
  refine ((color_pool_tip_iff oneActivation followedPool 3
    (noCycle_of_lt (by rw [hpooled]; decide)) (by decide)).2 .empty _ (colorTx 1 1 0) _
    rfl rfl hacyclic (by rw [hpooled]; unfold HashesApart; decide)).mpr ?_
  refine .inr ⟨rfl, by decide, fun x y _ hnext => ?_⟩
  have hcolored : coloredAlts followedPool 1 = pooledAlts followedPool := rfl
  rw [show (colorTx 1 1 0).altchain.hColor = 1 from rfl, hcolored]
  exact nextPooled_links hnext

/-- The first block of the color 1 is connected while the first block of the color 2 is in the pool:
    the tip of the color 1 is then the block of the color 2. -/
theorem other_color_taken_for_tip :
    ∃ t', connectAltChainTx oneActivation 2 .empty [colorTx 2 2 0] (colorTx 1 1 0) =
        some (true, t') ∧
      t'.mapColorPool 1 = some (altBlockHash oneActivation (colorTx 2 2 0).altchain.block) ∧
      coloredAlts [colorTx 2 2 0] 1 = [] ∧
      ¬ ColorTip oneActivation [colorTx 2 2 0] (colorTx 1 1 0).altchain t' := by
  have hcolored : coloredAlts [colorTx 2 2 0] 1 = [] := rfl
  refine ⟨_, rfl, rfl, hcolored, fun htip => ?_⟩
  obtain ⟨prev, -, alt, hmem, -⟩ := TransGen.tail'_iff.mp
    (htip.2 (altBlockHash oneActivation (colorTx 2 2 0).altchain.block) rfl)
  rw [show (colorTx 1 1 0).altchain.hColor = 1 from rfl, hcolored] at hmem
  cases hmem

end ShareCoin.Ext
