import ShareCoin.Proof.Server.MatrixReorg
import ShareCoin.Proof.Server.DoubleSpend
import ShareCoin.Proof.Server.Conserve
import ShareCoin.Proof.Server.Reject
import ShareCoin.Proof.Server.Reconnect
import ShareCoin.Proof.Server.Copies
import ShareCoin.Proof.Server.BestHeader
import ShareCoin.Proof.Wire.Bloom
import ShareCoin.Proof.Ext.Disconnect
import ShareCoin.Proof.Ext.AssetChain
import ShareCoin.Proof.Server.WalletTx
import ShareCoin.Proof.Wire.Witness
import ShareCoin.Proof.Wire.Filter
import ShareCoin.Proof.Wire.CoinAddr
import ShareCoin.Proof.Wire.Notary
import ShareCoin.Proof.Wallet.SelectCoins
import ShareCoin.Proof.Ext.Spring
import ShareCoin.Proof.Server.Checkpoints
import ShareCoin.Proof.Server.ColorGen
import ShareCoin.Proof.Server.Bolo
import ShareCoin.Proof.Server.SlaveMerkle
import ShareCoin.Proof.Server.PoolOrder
import ShareCoin.Proof.Server.SequenceLocks
import ShareCoin.Proof.Blockchain.Purge
import ShareCoin.Proof.Blockchain.Growth
import ShareCoin.Proof.Wire.Template
import ShareCoin.Proof.Wire.SigOpCost
import ShareCoin.Proof.Server.Supply
import ShareCoin.Proof.Ext.Licenses
import ShareCoin.Proof.Ext.ParamConsensus
import ShareCoin.Proof.Ext.OfferGenerate
import ShareCoin.Proof.Server.Locator
import ShareCoin.Proof.Server.MruSet
