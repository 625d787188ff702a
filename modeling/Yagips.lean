import Yagips.Wire.ParseExact
import Yagips.Wire.RoundTrip
import Yagips.Wire.Overrun
import Yagips.Server.Routing
import Yagips.Server.Addressing
import Yagips.Server.SlotSearch
import Yagips.Util.B64RoundTrip
import Yagips.Util.HexDigits
import Yagips.Util.B64Walk
import Yagips.Crypto.KeyScramble
import Yagips.Crypto.Ec2bAgrees
import Yagips.Crypto.RsaInverse
import Yagips.Crypto.RsaRoom
import Yagips.Crypto.Ec2bMethods
import Yagips.Crypto.XoshiroOrbit
import Yagips.Store.Lookups
import Yagips.Store.AccountRoundTrip
import Yagips.Store.Creation
import Yagips.Store.ArtifactRoundTrip
import Yagips.Sdk.Credentials
import Yagips.Sdk.Tickets
import Yagips.Sdk.IssuedTokens
import Yagips.Sdk.NullSafety
import Yagips.Sdk.Maintenance
import Yagips.Game.KeySpace
import Yagips.Game.Relogin
import Yagips.Game.Identities
import Yagips.Game.InventoryReload
import Yagips.Game.Reload
import Yagips.Game.SessionMachine
import Yagips.Game.TokenMatch
import Yagips.Game.Guids
import Yagips.Game.OpenStates
import Yagips.Game.Removals
import Yagips.Game.MirroredProps
import Yagips.Game.References
import Yagips.Game.CurrentTeam
import Yagips.Game.CreatingOverloads
import Yagips.Game.TeamEquality
import Yagips.Game.NullMembers
import Yagips.Game.Scene
import Yagips.Game.SessionLookups
import Yagips.Game.ItemLayout
import Yagips.Game.AvatarCounters
import Yagips.Game.AvatarProgress
import Yagips.Http.Chunking
import Yagips.Http.HeadOnly
import Yagips.Http.BrokenConnection
import Yagips.Http.ContentLength
import Yagips.Data.Columns
import Yagips.Data.JsonRows
import Yagips.Commands.Tokenizer
import Yagips.Commands.Registry
import Yagips.Kcp.Turns
import Yagips.Kcp.Packets
import Yagips.Sdk.RegionList
