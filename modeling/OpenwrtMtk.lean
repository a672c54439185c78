import OpenwrtMtk.Lib.Run
import OpenwrtMtk.Lib.Chain
import OpenwrtMtk.Lib.Bits
import OpenwrtMtk.Lib.Bytes
import OpenwrtMtk.Bndstrg.HashInvariant
import OpenwrtMtk.Bndstrg.Aging
import OpenwrtMtk.Bndstrg.Steering
import OpenwrtMtk.Bndstrg.Persist
import OpenwrtMtk.Bndstrg.Driver
import OpenwrtMtk.Bndstrg.AccessList
import OpenwrtMtk.Nvram.StoreLaw
import OpenwrtMtk.Nvram.ReadOnly
import OpenwrtMtk.Nvram.LocalParse
import OpenwrtMtk.Nvram.CommitBounds
import OpenwrtMtk.Nvram.Flash
import OpenwrtMtk.Owipcalc.Prefixes
import OpenwrtMtk.Ead.Authenticity
import OpenwrtMtk.Dot1x.Identifier
import OpenwrtMtk.Dot1x.AuthenticatorRun
import OpenwrtMtk.Dot1x.Lockstep
import OpenwrtMtk.Dot1x.Pending
import OpenwrtMtk.Dot1x.StationTimers
import OpenwrtMtk.Dot1x.RadiusWire
import OpenwrtMtk.Lib.Field
import OpenwrtMtk.Wapi.Received
import OpenwrtMtk.Wapi.Installed
import OpenwrtMtk.Wapi.Retransmission
import OpenwrtMtk.Wapi.InBounds
import OpenwrtMtk.Wapi.Agreement
import OpenwrtMtk.Wapi.RoundTrip
import OpenwrtMtk.Wapi.AccessRequest
import OpenwrtMtk.Wapi.Reassembly
import OpenwrtMtk.Nfc.NdefRoundTrip
import OpenwrtMtk.Nfc.HandoverRoundTrip
import OpenwrtMtk.Nfc.SnepFragments
import OpenwrtMtk.Lib.Pull
import OpenwrtMtk.Luci.TemplateText
import OpenwrtMtk.Luci.LuaString
import OpenwrtMtk.Luci.Utf8Sanitised
import OpenwrtMtk.Lib.Settled
import OpenwrtMtk.Luci.JsonRoundTrip
import OpenwrtMtk.Luci.LmoRoundTrip
import OpenwrtMtk.Luci.HttpRoundTrip
import OpenwrtMtk.Luci.HttpBody
import OpenwrtMtk.Map.PortSets
import OpenwrtMtk.Rtl8366.Smi
import OpenwrtMtk.Uci2dat.Config
import OpenwrtMtk.Uci2dat.Parsed
import OpenwrtMtk.Uci2dat.Positional
import OpenwrtMtk.Uci2dat.Dat
import OpenwrtMtk.Uci2dat.Stored
import OpenwrtMtk.Uci2dat.Accepted
import OpenwrtMtk.Uci2dat.Preserved
import OpenwrtMtk.Uci2dat.Untouched
import OpenwrtMtk.Uci2dat.Downgrade
import OpenwrtMtk.Mtd.Write
import OpenwrtMtk.Mtd.Blocks
import OpenwrtMtk.Mtd.Written
import OpenwrtMtk.Mtd.Jffs2
import OpenwrtMtk.Mtd.Layout
import OpenwrtMtk.Mtd.Buffered
import OpenwrtMtk.FirmwareUtils.Trx
import OpenwrtMtk.FirmwareUtils.TrxImage
import OpenwrtMtk.Lib.Memory
import OpenwrtMtk.FirmwareUtils.Buffalo
import OpenwrtMtk.Lib.Files
import OpenwrtMtk.FirmwareUtils.Seama
import OpenwrtMtk.FirmwareUtils.SeamaVerify
import OpenwrtMtk.FirmwareUtils.SeamaExtract
import OpenwrtMtk.Mtd.Represented
import OpenwrtMtk.Mtd.WellFormed
import OpenwrtMtk.Mtd.Fragments
import OpenwrtMtk.Mtd.Generated
import OpenwrtMtk.Wapi.StaTableRun
import OpenwrtMtk.Wapi.Mlme
import OpenwrtMtk.Dot1x.EapolOscillates
import OpenwrtMtk.Dot1x.EloopRuns
import OpenwrtMtk.Luci.MultipartRoundTrip
import OpenwrtMtk.Lib.Checked
import OpenwrtMtk.Dot1x.RadiusAccess
import OpenwrtMtk.Dot1x.Accessors
import OpenwrtMtk.Dot1x.FrameInBounds
import OpenwrtMtk.Dot1x.FrameStores
import OpenwrtMtk.Nfc.TokenInBounds
import OpenwrtMtk.Luci.Pcdata
import OpenwrtMtk.Lib.Words
import OpenwrtMtk.Luci.LuaNumber
import OpenwrtMtk.Luci.Ip
import OpenwrtMtk.Luci.IpWords
import OpenwrtMtk.Luci.IpSums
import OpenwrtMtk.Luci.IpSubnets
import OpenwrtMtk.Luci.IpRoundTrip
import OpenwrtMtk.Luci.LmoSearch
import OpenwrtMtk.Luci.LmoHash
import OpenwrtMtk.Luci.PoBounds
import OpenwrtMtk.Owipcalc.Steps
import OpenwrtMtk.Luci.IpAddresses
import OpenwrtMtk.Iwinfo.Rsn
import OpenwrtMtk.Ead.Login
import OpenwrtMtk.Ead.Rejected
import OpenwrtMtk.Rtl8366.Pvid
import OpenwrtMtk.Lib.Separated
import OpenwrtMtk.Luci.Split
import OpenwrtMtk.Uci2dat.InTables
import OpenwrtMtk.Ead.FramesInBounds
import OpenwrtMtk.Owipcalc.Sums
import OpenwrtMtk.Owipcalc.Networks
import OpenwrtMtk.Owipcalc.Discipline
import OpenwrtMtk.Mtd.Seama
import OpenwrtMtk.Lib.BitString
import OpenwrtMtk.Sixrd.Calc
import OpenwrtMtk.Map.Rule
import OpenwrtMtk.Map.Derived
import OpenwrtMtk.Map.InBounds
import OpenwrtMtk.Mtd.ScanEnds
import OpenwrtMtk.Mtd.Entries
import OpenwrtMtk.Mtd.FisLayout
import OpenwrtMtk.Luci.SessionRoundTrip
